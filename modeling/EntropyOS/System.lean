import EntropyOS.Fat32.Layout
import EntropyOS.Foundation.Program
import EntropyOS.Gpt.Layout

/-!
# The state the storage code runs on

The block device seen through `block.c`, the console the code prints to, and
the file-scope variables of the GPT and FAT32 modules.
-/

namespace EntropyOS

open EntropyOS.Foundation

abbrev Sector := Fin 512 → UInt8

def Sector.toBuf (sector : Sector) : Buf := fun k =>
  if h : k < 512 then sector ⟨k, h⟩ else 0

def Sector.ofBuf (buf : Buf) : Sector := fun k => buf k

@[simp] theorem Sector.ofBuf_toBuf (sector : Sector) :
    Sector.ofBuf sector.toBuf = sector := by
  funext k
  simp [Sector.ofBuf, Sector.toBuf]

theorem Sector.toBuf_ofBuf (buf : Buf) {k : Nat} (h : k < 512) :
    (Sector.ofBuf buf).toBuf k = buf k := by
  simp [Sector.ofBuf, Sector.toBuf, h]

def Sector.zero : Sector := fun _ => 0

/--
The disk behind the block layer.  `faults n lba` says whether the `n`-th
transfer from now on would fail at the sector `lba`; a failed transfer has no
effect.  `writes` records the address of every `block_write_sector` call,
latest first.
-/
structure Device where
  sataPresent : Bool
  msPresent : Bool
  /-- `ms_get_num_blocks`. -/
  msBlocks : UInt64
  /-- What `sata_get_num_blocks` reports, unless it fails. -/
  sataBlocks : Option UInt64
  sectors : Nat → Sector
  faults : Nat → Nat → Bool
  writes : List Nat

namespace Gpt

/--
The file-scope variables of `gpt.c`, with `seed` the static variable of
`generate_guid`.  The last three fields are the bytes that happen to lie
behind the header, the partition array and the sector buffer.
-/
structure Statics where
  header : Header
  partitions : Fin 128 → Entry
  initialized : Bool
  seed : UInt32
  behindHeader : Buf
  behindPartitions : Buf
  behindSector : Buf

def Statics.startup : Statics where
  header := Header.zero
  partitions := fun _ => Entry.zero
  initialized := false
  seed := 0x12345678
  behindHeader := fun _ => 0
  behindPartitions := fun _ => 0
  behindSector := fun _ => 0

end Gpt

def Fat32.Statics.startup : Fat32.Statics where
  fs := ⟨0, 0, 0, 0, 0, 0, 0, false⟩
  partitionOffset := 0
  freeClusters := unknownCount

structure System where
  device : Device
  console : List String
  gpt : Gpt.Statics
  fat32 : Fat32.Statics

namespace System

def put (s : System) (lba : Nat) (sector : Sector) : System :=
  { s with device := { s.device with
      sectors := Function.update s.device.sectors lba sector
      writes := lba :: s.device.writes } }

section Put

variable (s : System) (lba : Nat) (sector : Sector)

@[simp] theorem put_fat32 : (s.put lba sector).fat32 = s.fat32 := rfl

@[simp] theorem put_gpt : (s.put lba sector).gpt = s.gpt := rfl

@[simp] theorem put_sectors :
    (s.put lba sector).device.sectors =
      Function.update s.device.sectors lba sector := rfl

@[simp] theorem put_faults :
    (s.put lba sector).device.faults = s.device.faults := rfl

end Put

end System

structure Device.FaultFree (device : Device) : Prop where
  present : (device.sataPresent || device.msPresent) = true
  faults : device.faults = fun _ _ => false

/-- A machine just started, with `sectors` on a SATA disk that works. -/
def System.startup (sectors : Nat → Sector) : System where
  device :=
    { sataPresent := true
      msPresent := false
      msBlocks := 0
      sataBlocks := some 4294967296
      sectors := sectors
      faults := fun _ _ => false
      writes := [] }
  console := []
  gpt := Gpt.Statics.startup
  fat32 := Fat32.Statics.startup

/-- The machine is started again, with the disk it has. -/
def System.restart (s : System) : System :=
  { s with
    console := []
    gpt := Gpt.Statics.startup
    fat32 := Fat32.Statics.startup }

theorem System.startup_faultFree (sectors : Nat → Sector) :
    (System.startup sectors).device.FaultFree := ⟨rfl, rfl⟩

theorem Device.FaultFree.put {s : System} (h : s.device.FaultFree) (lba : Nat)
    (sector : Sector) : (s.put lba sector).device.FaultFree :=
  ⟨h.present, h.faults⟩

end EntropyOS
