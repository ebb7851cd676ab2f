import EntropyOS.Exfat.Heap
import EntropyOS.Exfat.Sequential
import EntropyOS.Foundation.Bitmap

/-!
# The state of libexfat

`struct exfat` and `struct exfat_node`.  The record is generic in what stands
for the device: the code runs on the handle of `io.c`, and most proofs look at
the bytes of the partition only.  Pointers to nodes are numbers, and the list
of the children of a directory is a list of them.
-/

namespace EntropyOS.Libexfat

open EntropyOS.Foundation
open EntropyOS.Exfat (Handle Backend)

/-! ## Numbers of clusters and of errors -/

def firstDataCluster : Nat := 2

def clusterFree : Nat := 0

def clusterBad : Nat := 0xfffffff7

def clusterEnd : Nat := 0xffffffff

def enoent : Int := 2

def eio : Int := 5

def enomem : Int := 12

def einval : Int := 22

def enospc : Int := 28

def enametoolong : Int := 38

def eilseq : Int := 42

/-! ## The super block -/

/-- `struct exfat_super_block`, as the 512 bytes that it is. -/
structure SuperBlock where
  bytes : Buf

namespace SuperBlock

variable (sb : SuperBlock)

def fatSectorStart : Nat := readLe sb.bytes 0x50 4

def clusterSectorStart : Nat := readLe sb.bytes 0x58 4

def clusterCount : Nat := readLe sb.bytes 0x5C 4

def volumeState : Nat := readLe sb.bytes 0x6A 2

def sectorBits : Nat := readLe sb.bytes 0x6C 1

def spcBits : Nat := readLe sb.bytes 0x6D 1

def allocatedPercent : Nat := readLe sb.bytes 0x70 1

def sectorSize : Nat := 2 ^ sb.sectorBits

def clusterSize : Nat := 2 ^ (sb.sectorBits + sb.spcBits)

def ClusterInvalid (cluster : Nat) : Prop :=
  cluster < firstDataCluster ∨ cluster - firstDataCluster ≥ sb.clusterCount

instance (cluster : Nat) : Decidable (sb.ClusterInvalid cluster) :=
  inferInstanceAs (Decidable (_ ∨ _))

theorem clusterSize_pos : 0 < sb.clusterSize := Nat.two_pow_pos _

/-- Size in bytes to size in clusters (rounded upwards). -/
def bytes2clusters (bytes : Nat) : Nat :=
  u32 (u64 (bytes + (sb.clusterSize - 1)) / sb.clusterSize)

end SuperBlock

/-! ## Nodes and volumes -/

/-- `struct exfat_node`; `children` are the nodes from `child` on. -/
structure Node where
  parent : Option Nat
  children : List Nat
  references : Int
  fptrIndex : Nat
  fptrCluster : Nat
  entryOffset : Nat
  startCluster : Nat
  attrib : Nat
  continuations : Nat
  isContiguous : Bool
  isCached : Bool
  isDirty : Bool
  isUnlinked : Bool
  validSize : Nat
  size : Nat
  mtime : Int
  atime : Int
  name : Nat → UInt16

def attribDir : Nat := 0x10

def Node.IsDir (node : Node) : Prop := node.attrib &&& attribDir ≠ 0

instance (node : Node) : Decidable node.IsDir :=
  inferInstanceAs (Decidable (_ ≠ _))

/-- The `cmap` of `struct exfat`; its sizes are in bits. -/
structure ClusterMap where
  startCluster : Nat
  size : Nat
  chunk : Bitmap 64
  chunkSize : Nat
  dirty : Bool

/-- The `repair` of `struct exfat`. -/
inductive Repair where
  | no
  | ask
  | yes
  deriving DecidableEq

/-- `struct exfat`, with the nodes, the heap and the counts of errors behind it. -/
structure VolumeOn (Dev : Type) where
  dev : Dev
  sb : SuperBlock
  upcase : Option (UInt16 → UInt16)
  root : Nat
  cmap : ClusterMap
  label : Buf
  zeroCluster : Buf
  ro : Bool
  noatime : Bool
  repair : Repair
  nodes : Nat → Node
  heapUsed : UInt64
  exfatErrors : Int
  exfatErrorsFixed : Int

abbrev Volume := VolumeOn Handle

namespace VolumeOn

variable {Dev : Type} (v : VolumeOn Dev)

def setNode (n : Nat) (node : Node) : VolumeOn Dev :=
  { v with nodes := Function.update v.nodes n node }

def setChunk (chunk : Bitmap 64) : VolumeOn Dev :=
  { v with cmap := { v.cmap with chunk := chunk, dirty := true } }

section Fields

variable (n : Nat) (node : Node) (chunk : Bitmap 64)

@[simp] theorem setNode_nodes_self : (v.setNode n node).nodes n = node := by
  simp [setNode]

theorem setNode_nodes_ne {m : Nat} (h : m ≠ n) :
    (v.setNode n node).nodes m = v.nodes m := by
  simp [setNode, h]

@[simp] theorem setNode_dev : (v.setNode n node).dev = v.dev := rfl

@[simp] theorem setNode_sb : (v.setNode n node).sb = v.sb := rfl

@[simp] theorem setNode_cmap : (v.setNode n node).cmap = v.cmap := rfl

@[simp] theorem setNode_zeroCluster :
    (v.setNode n node).zeroCluster = v.zeroCluster := rfl

@[simp] theorem setNode_setNode (node' : Node) :
    (v.setNode n node).setNode n node' = v.setNode n node' := by
  simp [setNode]

@[simp] theorem setNode_self : v.setNode n (v.nodes n) = v := by
  simp [setNode]

@[simp] theorem setChunk_dev : (v.setChunk chunk).dev = v.dev := rfl

@[simp] theorem setChunk_sb : (v.setChunk chunk).sb = v.sb := rfl

@[simp] theorem setChunk_nodes : (v.setChunk chunk).nodes = v.nodes := rfl

@[simp] theorem setChunk_chunk : (v.setChunk chunk).cmap.chunk = chunk := rfl

@[simp] theorem setChunk_size : (v.setChunk chunk).cmap.size = v.cmap.size := rfl

@[simp] theorem setChunk_chunkSize :
    (v.setChunk chunk).cmap.chunkSize = v.cmap.chunkSize := rfl

@[simp] theorem setChunk_zeroCluster :
    (v.setChunk chunk).zeroCluster = v.zeroCluster := rfl

end Fields

end VolumeOn

/-! ## The device, the console and the clock -/

def onDev {α : Type} (program : Program Handle α) : Program Volume α :=
  program.onPart VolumeOn.dev fun v dev => { v with dev := dev }

/-- `exfat_pread`, with the buffer before and after. -/
def pread (buffer : Buf) (size offset : Nat) : Program Volume (Int × Buf) := do
  let (r, buffer) ← onDev (Exfat.onBackend
    (Exfat.pread buffer (UInt64.ofNat size) (Int64.ofNat offset)))
  return (r.toInt, buffer)

def pwrite (buffer : Buf) (size offset : Nat) : Program Volume Int := do
  let r ← onDev (Exfat.onBackend
    (Exfat.pwrite buffer (UInt64.ofNat size) (Int64.ofNat offset)))
  return r.toInt

def print (message : String) : Program Volume Unit :=
  onDev (Exfat.onBackend (Exfat.onSystem (text message)))

/-- `exfat_error`, which prints its format as it stands. -/
def exfatError (format : String) : Program Volume Unit := do
  modify fun v => { v with exfatErrors := v.exfatErrors + 1 }
  print "ERROR: "
  print format
  print ".\n"

def countFixed : Program Volume Unit :=
  modify fun v => { v with exfatErrorsFixed := v.exfatErrorsFixed + 1 }

/-- The condition under which the code does not come to `exfat_bug`, which halts. -/
def unlessBug (fine : Prop) [Decidable fine] : Program Volume Unit := demand fine

/-- `time`, which has no clock to ask. -/
def time : Int := 0

def getNode (n : Nat) : Program Volume Node := do
  return (← get).nodes n

def modifyNode (n : Nat) (f : Node → Node) : Program Volume Unit :=
  modify fun v => v.setNode n (f (v.nodes n))

def updateMtime (n : Nat) : Program Volume Unit :=
  modifyNode n fun node => { node with mtime := time, isDirty := true }

def updateAtime (n : Nat) : Program Volume Unit :=
  modifyNode n fun node => { node with atime := time, isDirty := true }

end EntropyOS.Libexfat
