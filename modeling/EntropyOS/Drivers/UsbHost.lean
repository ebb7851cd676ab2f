import EntropyOS.Drivers.Block

/-!
# The emulated USB host

The bulk transfers of `usb_host_xhci.c`.  They keep one command block wrapper
(CBW) and one command status wrapper (CSW) in `usbms`, and carry out reads and
writes on the disk behind the block layer.  Buffers are not null.
-/

namespace EntropyOS.Usb

open EntropyOS.Foundation

structure Usbms where
  cbwTag : Nat
  cbwFlags : UInt8
  cbwCdb : Fin 16 → UInt8
  cbwDataLen : Nat
  cbwValid : Bool
  expectCsw : Bool
  cswBuf : Fin 13 → UInt8
  lastLba : Nat
  blockSize : Nat

def Usbms.startup : Usbms where
  cbwTag := 0
  cbwFlags := 0
  cbwCdb := fun _ => 0
  cbwDataLen := 0
  cbwValid := false
  expectCsw := false
  cswBuf := fun _ => 0
  lastLba := 0
  blockSize := 0

/-- `g_block_size`, `g_present` and `g_num_blocks` of `mass_storage.c`. -/
structure MassStorage where
  blockSize : Nat
  present : Bool
  numBlocks : Nat

structure Host where
  system : System
  usbms : Usbms
  ms : MassStorage

def onSystem {α : Type} (program : Program System α) : Program Host α :=
  program.onPart Host.system fun s system => { s with system := system }

theorem onSystem_of_some {α : Type} {program : Program System α} {s : Host}
    {a : α} {system' : System} (h : program s.system = some (a, system')) :
    onSystem program s = some (a, { s with system := system' }) :=
  Program.onPart_of_some h

def modifyUsbms (f : Usbms → Usbms) : Program Host Unit :=
  modify fun s => { s with usbms := f s.usbms }

namespace Usbms

variable (u : Usbms)

def lba : Nat :=
  (u.cbwCdb 2).toNat * 16777216 + (u.cbwCdb 3).toNat * 65536 +
    (u.cbwCdb 4).toNat * 256 + (u.cbwCdb 5).toNat

def count : Nat := (u.cbwCdb 7).toNat * 256 + (u.cbwCdb 8).toNat

/-- The CBW in a packet becomes the current one. -/
def acceptCbw (packet : Buf) : Usbms :=
  { u with
    cbwValid := true
    cbwTag := readLe packet 4 4
    cbwDataLen := readLe packet 8 4
    cbwFlags := packet 12
    cbwCdb := fun i => packet (15 + i)
    expectCsw := false }

/-- The data phase is over: success is to be reported. -/
def prepareCsw : Usbms :=
  { u with
    cswBuf := fun i =>
      if i.val < 4 then byteOf 0x53425355 i
      else if i.val < 8 then byteOf u.cbwTag (i - 4)
      else if i.val < 12 then 0
      else u.cswBuf i
    expectCsw := true
    cbwValid := false }

def cswPacket : Buf := fun k => if h : k < 13 then u.cswBuf ⟨k, h⟩ else 0

def capacity : Buf := fun k =>
  if k < 4 then byteOf (u32 u.lastLba) (3 - k) else byteOf u.blockSize (7 - k)

/-- The next packet to the device is the data of a WRITE(10). -/
def WritePending : Prop :=
  u.cbwValid = true ∧ u.cbwFlags = 0 ∧ u.cbwCdb 0 = 0x2A

/-- The next packet from the device answers the given command. -/
def ReadPending (opcode : UInt8) : Prop :=
  u.cbwValid = true ∧ u.cbwFlags &&& 0x80 ≠ 0 ∧ u.cbwCdb 0 = opcode

instance : Decidable u.WritePending :=
  inferInstanceAs (Decidable (_ ∧ _ ∧ _))

instance (opcode : UInt8) : Decidable (u.ReadPending opcode) :=
  inferInstanceAs (Decidable (_ ∧ _ ∧ _))

end Usbms

def IsCbw (packet : Buf) (len : Nat) : Prop :=
  31 ≤ len ∧ readLe packet 0 4 = 0x43425355

instance (packet : Buf) (len : Nat) : Decidable (IsCbw packet len) :=
  inferInstanceAs (Decidable (_ ∧ _))

def writeBlocks (lba blockSize : Nat) (src : Buf) :
    (count i : Nat) → Program System Int
  | 0, _ => return 0
  | count + 1, i => do
      let block := Sector.ofBuf fun k => src (u32 (i * blockSize) + k)
      if (← blockWriteSector (lba + i) block) ≠ 0 then
        text "usb_host: MS emu write failed\n"
        return -1
      writeBlocks lba blockSize src count (i + 1)

/-- `usb_host_bulk_out`: the result, and what `*actual` holds then. -/
def bulkOut (buf : Buf) (len actual : Nat) : Program Host (Int × Nat) := do
  if IsCbw buf len then
    modifyUsbms fun u => u.acceptCbw buf
    return (0, len)
  let u := (← get).usbms
  if u.WritePending then
    if (← onSystem (writeBlocks u.lba u.blockSize buf u.count 0)) ≠ 0 then
      return (-1, actual)
    modifyUsbms Usbms.prepareCsw
    return (0, len)
  return (0, 0)

def readBlocks (lba blockSize : Nat) :
    (count i : Nat) → Buf → Program System (Int × Buf)
  | 0, _, buf => return (0, buf)
  | count + 1, i, buf => do
      let some sector ← blockReadSector (lba + i)
        | do
            text "usb_host: MS emu read sector failed\n"
            return (-1, buf)
      readBlocks lba blockSize count (i + 1)
        (buf.overlay (u32 (i * blockSize)) 512 sector.toBuf)

/-- `usb_host_bulk_in`: the result, the buffer, and what `*actual` holds. -/
def bulkIn (buf : Buf) (len actual : Nat) : Program Host (Int × Buf × Nat) := do
  let u := (← get).usbms
  if u.ReadPending 0x25 then
    if len < 8 then
      return (-1, buf, actual)
    modifyUsbms Usbms.prepareCsw
    return (0, buf.overlay 0 8 u.capacity, 8)
  if u.ReadPending 0x28 then
    if u.cbwCdb 2 &&& 0x80 ≠ 0 then
      return (-1, buf, actual)
    let toRead := u32 (u.count * u.blockSize)
    if len < toRead then
      return (-1, buf, actual)
    let (status, buf) ← onSystem (readBlocks u.lba u.blockSize u.count 0 buf)
    if status ≠ 0 then
      return (-1, buf, actual)
    modifyUsbms Usbms.prepareCsw
    return (0, buf, toRead)
  if u.expectCsw = true ∧ 13 ≤ len then
    modifyUsbms fun u => { u with expectCsw := false }
    return (0, buf.overlay 0 13 u.cswPacket, 13)
  return (0, buf, 0)

end EntropyOS.Usb
