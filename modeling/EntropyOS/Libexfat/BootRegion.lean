import EntropyOS.Libexfat.Checksums
import EntropyOS.Libexfat.Clusters

/-!
# The boot region

What `mount.c` and `repair.c` do with the twelve sectors at the start of a
volume: eleven, and one that is filled with their checksum.
-/

namespace EntropyOS.Libexfat

open EntropyOS.Foundation

/-- `exfat_ask_to_fix`; a question has no answer here, which means no. -/
def askToFix : Program Volume Bool := do
  return decide ((← get).repair = .yes)

/-- `exfat_fix_invalid_vbr_checksum`, with the sector after it. -/
def fixInvalidVbrChecksum (sector : Buf) (sum : UInt32) : Program Volume (Bool × Buf) := do
  let size := (← get).sb.sectorSize
  let sector := (List.range (size / 4)).foldl
    (fun sector i => storeLe sector (4 * i) 4 sum.toNat) sector
  if (← pwrite sector size (11 * size)) < 0 then
    exfatError "failed to write correct VBR checksum"
    return (false, sector)
  countFixed
  return (true, sector)

/-- One word of the last sector, which may be repaired. -/
def verifyVbrWord (sum : UInt32) (i : Nat) (sector : Buf) : Program Volume (Bool × Buf) := do
  if readLe sector (4 * i) 4 ≠ sum.toNat then
    exfatError "invalid VBR checksum 0x%x (expected 0x%x)"
    if ← askToFix then
      fixInvalidVbrChecksum sector sum
    else
      return (false, sector)
  else
    return (true, sector)

def verifyVbrWords (sum : UInt32) : (rounds i : Nat) → Buf → Program Volume (Bool × Buf)
  | 0, _, sector => return (true, sector)
  | rounds + 1, i, sector => do
      let (fine, sector) ← verifyVbrWord sum i sector
      if fine then
        verifyVbrWords sum rounds (i + 1) sector
      else
        return (false, sector)

/-- The first loop of `verify_vbr_checksum`. -/
def readVbrSectors (size : Nat) :
    (rounds i : Nat) → Buf → UInt32 → Program Volume (Option UInt32 × Buf)
  | 0, _, sector, sum => return (some sum, sector)
  | rounds + 1, i, sector, sum => do
      let (r, sector) ← pread sector size (i * size)
      if r < 0 then
        exfatError "failed to read VBR sector"
        return (none, sector)
      else
        readVbrSectors size rounds (i + 1) sector (vbrAddChecksum sector size sum)

/-- `verify_vbr_checksum`, with the buffer before and after. -/
def verifyVbrChecksum (sector : Buf) : Program Volume (Bool × Buf) := do
  let size := (← get).sb.sectorSize
  let (r, sector) ← pread sector size 0
  if r < 0 then
    exfatError "failed to read boot sector"
    return (false, sector)
  match ← readVbrSectors size 10 1 sector (vbrStartChecksum sector size) with
  | (none, sector) => return (false, sector)
  | (some sum, sector) =>
      let (r, sector) ← pread sector size (11 * size)
      if r < 0 then
        exfatError "failed to read VBR checksum sector"
        return (false, sector)
      verifyVbrWords sum (size / 4) 0 sector

def commitSuperBlock : Program Volume Int := do
  if (← pwrite (← get).sb.bytes 512 0) < 0 then
    exfatError "failed to write super block"
    return 1
  return 0

def stateMounted : Nat := 2

namespace SuperBlock

def withState (sb : SuperBlock) (state : Nat) : SuperBlock :=
  ⟨storeLe sb.bytes 0x6A 2 state⟩

def withPercent (sb : SuperBlock) (percent : Nat) : SuperBlock :=
  ⟨storeLe sb.bytes 0x70 1 percent⟩

end SuperBlock

def modifySb (f : SuperBlock → SuperBlock) : Program Volume Unit :=
  modify fun ef => { ef with sb := f ef.sb }

def soilSuperBlock : Program Volume Int := do
  if (← get).ro then
    return 0
  else
    modifySb fun sb => sb.withState (sb.volumeState ||| stateMounted)
    commitSuperBlock

def percentUsed (total free : Nat) : Nat :=
  u32 (u32 (u32 (total + 4294967296 - free) * 100) + total / 2) / total

/-- The step of `finalize_super_block` that notes how full the volume is. -/
def notePercent : Program Volume Unit := do
  if (← get).sb.allocatedPercent ≠ 0xff then
    let free ← countFreeClusters
    -- the division by the number of clusters
    demand ((← get).sb.clusterCount ≠ 0)
    modifySb fun sb => sb.withPercent (percentUsed sb.clusterCount free)

def finalizeSuperBlock : Program Volume Unit := do
  if (← get).ro then
    return ()
  else
    modifySb fun sb => sb.withState (sb.volumeState &&& (0xffffffff - stateMounted))
    notePercent
    let _rc ← commitSuperBlock

end EntropyOS.Libexfat
