import EntropyOS.Libexfat.Clusters

/-!
# The bytes of a node

`exfat_generic_pread` and `exfat_generic_pwrite` of `io.c`.
-/

namespace EntropyOS.Libexfat

open EntropyOS.Foundation

/-- The loop of `exfat_generic_pread`; `offset` is `loffset`. -/
def preadLoop (node size : Nat) (buffer : Buf) (filled : Nat) (cluster : Nat)
    (offset : Nat) (hoffset : offset < size) (remainder : Nat) :
    Program Volume (Int × Buf) := do
  if remainder > 0 then
    if (← get).sb.ClusterInvalid cluster then
      exfatError "invalid cluster 0x%x while reading"
      return (-eio, buffer)
    let lsize := min (size - offset) remainder
    let (r, part) ← pread (fun k => buffer (filled + k)) lsize
      (u64 ((← c2o cluster) + offset))
    let buffer := fun k => if k < filled then buffer k else part (k - filled)
    if r < 0 then
      exfatError "failed to read cluster %#x"
      return (-eio, buffer)
    let cluster ← nextCluster node cluster
    preadLoop node size buffer (filled + lsize) cluster 0 (Nat.zero_lt_of_lt hoffset)
      (remainder - lsize)
  else
    return (0, buffer)
termination_by remainder

/-- The last step of `exfat_generic_pread`. -/
def noteAccess (node : Nat) : Program Volume Unit := do
  let ef ← get
  if ¬ (ef.nodes node).IsDir ∧ ¬ ef.ro ∧ ¬ ef.noatime then
    updateAtime node

/-- The last step of `exfat_generic_pwrite`; the caller updates a directory. -/
def noteChange (node : Nat) : Program Volume Unit := do
  if ¬ (← getNode node).IsDir then
    updateMtime node

def preadValid (node : Nat) (buffer : Buf) (size uoffset : Nat) :
    Program Volume (Int × Buf) := do
  let sb := (← get).sb
  let cluster ← advanceCluster node (u32 (uoffset / sb.clusterSize))
  if sb.ClusterInvalid cluster then
    exfatError "invalid cluster 0x%x while reading"
    return (-eio, buffer)
  let count := min size ((← getNode node).size - uoffset)
  let (rc, buffer) ← preadLoop node sb.clusterSize buffer 0 cluster
    (uoffset % sb.clusterSize) (Nat.mod_lt _ sb.clusterSize_pos) count
  if rc ≠ 0 then
    return (rc, buffer)
  noteAccess node
  return (count, buffer)

/--
The call that `exfat_generic_pread` makes of itself, for what there is up to the
valid size.
-/
def preadHead (node : Nat) (buffer : Buf) (uoffset validSize : Nat) :
    Program Volume (Int × Buf) :=
  if uoffset < validSize then
    preadValid node buffer (validSize - uoffset) uoffset
  else
    pure (0, buffer)

def preadPast (node : Nat) (buffer : Buf) (size uoffset : Nat) :
    Program Volume (Int × Buf) := do
  let n ← getNode node
  let (bytes, buffer) ← preadHead node buffer uoffset n.validSize
  if uoffset < n.validSize ∧ (bytes < 0 ∨ bytes < (n.validSize - uoffset : Nat)) then
    return (bytes, buffer)
  let n ← getNode node
  let zeros := min (size - bytes.toNat) (n.size - n.validSize)
  return ((min size (n.size - uoffset) : Nat),
    buffer.overlay bytes.toNat zeros fun _ => 0)

/-- `exfat_generic_pread`: the result, and the buffer. -/
def genericPread (node : Nat) (buffer : Buf) (size : Nat) (offset : Int) :
    Program Volume (Int × Buf) := do
  let uoffset := offset.toNat
  let n ← getNode node
  if offset < 0 then
    return (-einval, buffer)
  if uoffset ≥ n.size then
    return (0, buffer)
  if size = 0 then
    return (0, buffer)
  if u64 (uoffset + size) > n.validSize then
    preadPast node buffer size uoffset
  else
    preadValid node buffer size uoffset

/-- The loop of `exfat_generic_pwrite`; `written` is the end of the whole write. -/
def pwriteLoop (node size written : Nat) (buffer : Buf) (cluster : Nat) (offset : Nat)
    (hoffset : offset < size) (remainder : Nat) : Program Volume Int := do
  if remainder > 0 then
    if (← get).sb.ClusterInvalid cluster then
      exfatError "invalid cluster 0x%x while writing"
      return -eio
    let lsize := min (size - offset) remainder
    if (← pwrite buffer lsize (u64 ((← c2o cluster) + offset))) < 0 then
      exfatError "failed to write cluster %#x"
      return -eio
    modifyNode node fun n => { n with
      validSize := max n.validSize (written - (remainder - lsize)) }
    let cluster ← nextCluster node cluster
    pwriteLoop node size written (fun k => buffer (k + lsize)) cluster 0
      (Nat.zero_lt_of_lt hoffset) (remainder - lsize)
  else
    return 0
termination_by remainder

/-- Make the node reach up to the place of a write, with zeros. -/
def extendTo (node uoffset : Nat) : Program Volume Int := do
  if uoffset > (← getNode node).size then
    truncate node uoffset true
  else
    return 0

def extendFor (node last : Nat) : Program Volume Int := do
  if last > (← getNode node).size then
    truncate node last false
  else
    return 0

def extend (node size uoffset : Nat) : Program Volume Int := do
  let rc ← extendTo node uoffset
  if rc ≠ 0 then
    return rc
  extendFor node (u64 (uoffset + size))

/-- `exfat_generic_pwrite` once the node is long enough. -/
def pwriteWithin (node : Nat) (buffer : Buf) (size uoffset : Nat) :
    Program Volume Int := do
  let sb := (← get).sb
  let cluster ← advanceCluster node (u32 (uoffset / sb.clusterSize))
  if sb.ClusterInvalid cluster then
    exfatError "invalid cluster 0x%x while writing"
    return -eio
  let rc ← pwriteLoop node sb.clusterSize (u64 (uoffset + size)) buffer cluster
    (uoffset % sb.clusterSize) (Nat.mod_lt _ sb.clusterSize_pos) size
  if rc ≠ 0 then
    return rc
  noteChange node
  return size

def genericPwrite (node : Nat) (buffer : Buf) (size : Nat) (offset : Int) :
    Program Volume Int := do
  if offset < 0 then
    return -einval
  let uoffset := offset.toNat
  let rc ← extend node size uoffset
  if rc ≠ 0 then
    return rc
  if size = 0 then
    return 0
  pwriteWithin node buffer size uoffset

end EntropyOS.Libexfat
