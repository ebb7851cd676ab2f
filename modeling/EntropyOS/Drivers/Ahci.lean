import EntropyOS.Foundation.Bytes
import EntropyOS.Foundation.Program

/-!
# The AHCI driver

`sata.c` at the level of the port registers.  A controller answers a read in
any way that may depend on what was done to it before, and puts what it likes
into the buffer of a command.  The log macros expand to nothing in this file,
and the delay loops are left out, as are the addresses inside the command list.
-/

namespace EntropyOS.Ahci

open EntropyOS.Foundation

/-! ## Registers -/

def portClb : Nat := 0x00

def portClbu : Nat := 0x04

def portFb : Nat := 0x08

def portFbu : Nat := 0x0C

def portIs : Nat := 0x10

def portCmd : Nat := 0x18

def portTfd : Nat := 0x20

def portSerr : Nat := 0x30

def portSact : Nat := 0x34

def portCi : Nat := 0x38

def portCmdSt : UInt32 := 0x1

def portCmdFre : UInt32 := 0x10

def portCmdFr : UInt32 := 0x4000

def portCmdCr : UInt32 := 0x8000

def portTfdBsy : UInt32 := 0x80

def portTfdDrq : UInt32 := 0x08

def portIsTfes : UInt32 := 0x40000000

def slotBit (slot : Fin 32) : UInt32 := 1 <<< UInt32.ofNat slot

/-! ## Commands and accesses -/

/-- `hba_prdt_entry_t`, with the buffer that its address names. -/
structure PrdtEntry where
  data : Buf
  dbc : Nat

/-- What `ahci_build_cmd` leaves in the header and the table of a slot. -/
structure Command where
  cfl : Nat
  w : Bool
  prdtl : Nat
  prdtEntry : Option PrdtEntry
  fisType : UInt8
  c : Bool
  command : UInt8
  device : UInt8
  count : Nat
  lba : Fin 6 → UInt8

inductive Access where
  | read (address : Nat) (value : UInt32)
  | write (address : Nat) (value : UInt32)
  | build (slot : Fin 32) (command : Command)

/-- A command is issued to the port at `portBase`. -/
def Access.Issues (portBase : Nat) : Access → Prop
  | .write address _ => address = portBase + portCi
  | _ => False

/--
The value that the register at an address shows, and what the buffer of the
last command holds, given the accesses so far, latest first.
-/
structure Controller where
  shows : List Access → Nat → UInt32
  delivers : List Access → Buf → Buf

/-- The static variables of `sata.c`, the controller, and the accesses so far. -/
structure State where
  controller : Controller
  accesses : List Access
  cmdListMem : Nat
  fisMem : Nat
  ahciBase : Nat
  ahciInitialized : Bool
  activePort : UInt8

namespace State

variable (s : State)

def shown (address : Nat) : UInt32 := s.controller.shows s.accesses address

def record (access : Access) : State :=
  { s with accesses := access :: s.accesses }

def look (address : Nat) : State := s.record (.read address (s.shown address))

def portBase : Nat := s.ahciBase + 0x100 + s.activePort.toNat * 0x80

def Usable : Prop := s.ahciInitialized = true ∧ s.activePort ≠ 0xFF

instance : Decidable s.Usable := inferInstanceAs (Decidable (_ ∧ _))

@[simp] theorem look_accesses (address : Nat) :
    (s.look address).accesses = .read address (s.shown address) :: s.accesses :=
  rfl

end State

def ahciRead32 (base off : Nat) : Program State UInt32 := do
  let s ← get
  set (s.look (base + off))
  return s.shown (base + off)

def ahciWrite32 (base off : Nat) (val : UInt32) : Program State Unit :=
  modify fun s => s.record (.write (base + off) val)

/-- Read a register until the bits are clear or the retries are spent. -/
def waitClear (base off : Nat) (bits : UInt32) : Nat → Program State Unit
  | 0 => return ()
  | retries + 1 => do
      if (← ahciRead32 base off) &&& bits = 0 then
        return ()
      waitClear base off bits retries

/-! ## Ports -/

def ahciPortStop (portBase : Nat) : Program State Unit := do
  let cmd ← ahciRead32 portBase portCmd
  ahciWrite32 portBase portCmd (cmd &&& ~~~(portCmdSt ||| portCmdFre))
  waitClear portBase portCmd (portCmdCr ||| portCmdFr) 500

def ahciPortStart (portBase : Nat) : Program State Unit := do
  waitClear portBase portCmd portCmdCr 500
  let cmd ← ahciRead32 portBase portCmd
  ahciWrite32 portBase portCmd (cmd ||| (portCmdFre ||| portCmdSt))

def ahciPortInit (portNum : UInt8) : Program State Int := do
  let s ← get
  if s.ahciBase = 0 then
    return -1
  let portBase := s.ahciBase + 0x100 + portNum.toNat * 0x80
  ahciPortStop portBase
  ahciWrite32 portBase portClb (UInt32.ofNat s.cmdListMem)
  ahciWrite32 portBase portClbu (UInt32.ofNat (s.cmdListMem / 4294967296))
  ahciWrite32 portBase portFb (UInt32.ofNat s.fisMem)
  ahciWrite32 portBase portFbu (UInt32.ofNat (s.fisMem / 4294967296))
  ahciWrite32 portBase portSerr 0xFFFFFFFF
  ahciWrite32 portBase portIs 0xFFFFFFFF
  ahciPortStart portBase
  modify fun s => { s with activePort := portNum }
  return 0

/-- `ahci_find_free_slot`; `none` is the result -1. -/
def ahciFindFreeSlot (portBase : Nat) : Program State (Option (Fin 32)) := do
  let active ← ahciRead32 portBase portSact
  let issued ← ahciRead32 portBase portCi
  return (List.finRange 32).find? fun slot =>
    (active ||| issued) &&& slotBit slot = 0

/-! ## Commands -/

def Command.make (write : Bool) (prdtl : Nat) (buf : Option Buf) (bufLen : Nat)
    (cmd : UInt8) (lba count : Nat) : Command where
  cfl := 5
  w := write
  prdtl := prdtl
  prdtEntry := if 0 < prdtl then buf.map fun data => ⟨data, bufLen - 1⟩ else none
  fisType := 0x27
  c := true
  command := cmd
  device := 0x40
  count := count
  lba := fun i => byteOf lba i

def ahciBuildCmd (slot : Fin 32) (command : Command) : Program State Unit :=
  modify fun s => s.record (.build slot command)

def ahciCmdTimeout : Nat := 10000

/-- What `ahci_issue_and_wait` does once the polls are over. -/
def consumeStatus (portBase : Nat) : Program State Int := do
  let status ← ahciRead32 portBase portIs
  if status ≠ 0 then
    ahciWrite32 portBase portIs status
  if status &&& portIsTfes ≠ 0 then
    let _tfd ← ahciRead32 portBase portTfd
    let _serr ← ahciRead32 portBase portSerr
    ahciWrite32 portBase portSerr 0xFFFFFFFF
    return -1
  return 0

def ahciIssueAndWait (portBase : Nat) (slot : Fin 32) : Program State Int := do
  ahciWrite32 portBase portIs 0xFFFFFFFF
  ahciWrite32 portBase portCi (slotBit slot)
  waitClear portBase portCi (slotBit slot) ahciCmdTimeout
  consumeStatus portBase

def ataReadDmaEx : UInt8 := 0x25

def ataWriteDmaEx : UInt8 := 0x35

def ataIdentify : UInt8 := 0xEC

def ataFlushCacheExt : UInt8 := 0xEA

/-! ## The calls of the driver -/

/-- `sata_read_sector`, with the buffer before and after. -/
def sataReadSector (lba : Nat) (buffer : Option Buf) :
    Program State (Int × Option Buf) := do
  let s ← get
  if ¬ s.Usable then
    return (-1, buffer)
  let some buf := buffer
    | return (-1, none)
  waitClear s.portBase portTfd (portTfdBsy ||| portTfdDrq) 1000
  let some slot ← ahciFindFreeSlot s.portBase
    | return (-1, some buf)
  ahciBuildCmd slot (Command.make false 1 (some buf) 512 ataReadDmaEx lba 1)
  let status ← ahciIssueAndWait s.portBase slot
  let s ← get
  return (status, some (s.controller.delivers s.accesses buf))

/-- The attempts of `sata_write_sector`, as many as are left. -/
def writeAttempts (portBase : Nat) (slot : Fin 32) (command : Command) :
    Nat → Program State Int
  | 0 => return -1
  | attempts + 1 => do
      ahciBuildCmd slot command
      if (← ahciIssueAndWait portBase slot) = 0 then
        return 0
      if 0 < attempts then
        let s ← get
        let _status ← ahciPortInit s.activePort
      writeAttempts portBase slot command attempts

def sataWriteSector (lba : Nat) (buffer : Option Buf) : Program State Int := do
  let s ← get
  if ¬ s.Usable then
    return -1
  let some buf := buffer
    | return -1
  waitClear s.portBase portTfd (portTfdBsy ||| portTfdDrq) 1000
  let some slot ← ahciFindFreeSlot s.portBase
    | return -1
  writeAttempts s.portBase slot
    (Command.make true 1 (some buf) 512 ataWriteDmaEx lba 1) 3

def sataFlushCache : Program State Int := do
  let s ← get
  if ¬ s.Usable then
    return -1
  let some slot ← ahciFindFreeSlot s.portBase
    | return -1
  ahciBuildCmd slot (Command.make false 0 none 0 ataFlushCacheExt 0 0)
  if (← ahciIssueAndWait s.portBase slot) ≠ 0 then
    return -1
  return 0

def identifyWord (buf : Buf) (i : Nat) : Nat := readLe buf (2 * i) 2

/-- The capacity that `sata_get_num_blocks` reads from the words; `none` if zero. -/
def identifyTotal (buf : Buf) : Option Nat :=
  let w := identifyWord buf
  let lba48Max := w 103 * 281474976710656 + w 102 * 4294967296 +
    w 101 * 65536 + w 100
  let lba28Cnt := w 61 * 65536 + w 60
  if lba48Max ≠ 0 then some (u64 (lba48Max + 1))
  else if lba28Cnt ≠ 0 then some lba28Cnt
  else none

/-- `sata_get_num_blocks`; `none` is the result -1. -/
def sataGetNumBlocks : Program State (Option Nat) := do
  let s ← get
  if ¬ s.Usable then
    return none
  let buf : Buf := fun _ => 0
  let some slot ← ahciFindFreeSlot s.portBase
    | return none
  ahciBuildCmd slot (Command.make false 1 (some buf) 512 ataIdentify 0 0)
  if (← ahciIssueAndWait s.portBase slot) ≠ 0 then
    return none
  let s ← get
  return identifyTotal (s.controller.delivers s.accesses buf)

end EntropyOS.Ahci
