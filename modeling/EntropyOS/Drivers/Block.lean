import EntropyOS.System

/-!
# The block layer

`block.c` and the calls into the SATA driver that the file systems make.  The
block layer prefers SATA and falls back to USB mass storage; both move one
sector or fail.  On a fault-free device each call has one outcome, which the
equations at the end state.
-/

namespace EntropyOS

open EntropyOS.Foundation

def text (message : String) : Program System Unit :=
  modify fun s => { s with console := message :: s.console }

/-- Whether the transfer that starts now at the sector `lba` fails. -/
def transferFails (lba : Nat) : Program System Bool := do
  let s ← get
  set { s with device :=
    { s.device with faults := fun n => s.device.faults (n + 1) } }
  return s.device.faults 0 lba

def blockIsPresent : Program System Bool := do
  let s ← get
  return s.device.sataPresent || s.device.msPresent

/-- `block_read_sector`; `none` is the result -1. -/
def blockReadSector (lba : Nat) : Program System (Option Sector) := do
  let s ← get
  if s.device.sataPresent || s.device.msPresent then
    if ← transferFails lba then
      unless s.device.sataPresent do
        text "block: ms_read_blocks failed\n"
      return none
    return some (s.device.sectors lba)
  return none

def blockWriteSector (lba : Nat) (sector : Sector) : Program System Int := do
  let s ← get
  if s.device.sataPresent || s.device.msPresent then
    if ← transferFails lba then
      modify fun s => { s with device :=
        { s.device with writes := lba :: s.device.writes } }
      unless s.device.sataPresent do
        text "block: ms_write_blocks failed\n"
      return -1
    modify fun s => s.put lba sector
    return 0
  return -1

/-- `sata_flush_cache`, which moves no data and names no sector but the first. -/
def sataFlushCache : Program System Int := do
  let s ← get
  if s.device.sataPresent then
    if ← transferFails 0 then
      return -1
    return 0
  return -1

/-- The flush loop that follows an update; the delays are left out. -/
def flushCache (warning : String) : Nat → Program System Unit
  | 0 => pure ()
  | count + 1 => do
      let status ← sataFlushCache
      if status ≠ 0 then
        text warning
      flushCache warning count

/-- `if (sata_is_present())` around the flush loop. -/
def flushIfSata (warning : String) : Program System Unit := do
  let s ← get
  if s.device.sataPresent then
    flushCache warning 5

/-! ## What transfers leave alone

The rules hold with any faults: a transfer changes nothing but the disk, the
console and the faults to come, and every write is on record.
-/

structure Transfers (s s' : System) : Prop where
  gpt : s'.gpt = s.gpt
  fat32 : s'.fat32 = s.fat32
  writes : s.device.writes <:+ s'.device.writes

instance : Std.Refl Transfers :=
  ⟨fun _ => ⟨rfl, rfl, List.suffix_rfl⟩⟩

instance : IsTrans System Transfers :=
  ⟨fun _ _ _ h h' => ⟨h'.gpt.trans h.gpt, h'.fat32.trans h.fat32,
    h.writes.trans h'.writes⟩⟩

theorem text_transfers (message : String) : Within Transfers (text message) :=
  Within.modify fun _ => ⟨rfl, rfl, List.suffix_rfl⟩

theorem transferFails_transfers (lba : Nat) :
    Within Transfers (transferFails lba) := by
  intro s fails s' h
  cases h
  exact ⟨rfl, rfl, List.suffix_rfl⟩

theorem blockReadSector_transfers (lba : Nat) :
    Within Transfers (blockReadSector lba) := by
  refine Within.bind Within.get fun s => Within.ite ?_ (Within.pure none)
  refine Within.bind (transferFails_transfers _) fun fails => Within.ite ?_ ?_
  · refine Within.ite (Within.pure none) ?_
    exact Within.bind (text_transfers _) fun _ => Within.pure none
  · exact Within.pure _

theorem blockWriteSector_transfers (lba : Nat) (sector : Sector) :
    Within Transfers (blockWriteSector lba sector) := by
  refine Within.bind Within.get fun s => Within.ite ?_ (Within.pure _)
  refine Within.bind (transferFails_transfers _) fun fails => Within.ite ?_ ?_
  · refine Within.bind (Within.modify fun _ => ⟨rfl, rfl, ?_⟩) fun _ => ?_
    · exact List.suffix_cons _ _
    · refine Within.ite (Within.pure _) ?_
      exact Within.bind (text_transfers _) fun _ => Within.pure _
  · refine Within.bind (Within.modify fun _ => ⟨rfl, rfl, ?_⟩) fun _ =>
      Within.pure _
    exact List.suffix_cons _ _

/-! ## One transfer -/

namespace System

def tick (s : System) : System :=
  { s with device :=
    { s.device with faults := fun n => s.device.faults (n + 1) } }

/-- The state after a write of one sector that failed. -/
def record (s : System) (lba : Nat) : System :=
  { s with
    device := { s.device with writes := lba :: s.device.writes }
    console :=
      if s.device.sataPresent then s.console
      else "block: ms_write_blocks failed\n" :: s.console }

theorem tick_eq {s : System} {bad : Nat → Bool}
    (h : s.device.faults = fun _ => bad) : s.tick = s := by
  have hsame : (fun n => s.device.faults (n + 1)) = s.device.faults := by
    rw [h]
  rw [tick, hsame]

end System

section Transfer

variable {s : System} (lba : Nat)

theorem transferFails_apply :
    transferFails lba s = some (s.device.faults 0 lba, s.tick) := rfl

variable (hs : (s.device.sataPresent || s.device.msPresent) = true)

include hs

theorem blockIsPresent_present : blockIsPresent s = some (true, s) := by
  change some ((s.device.sataPresent || s.device.msPresent), s) = _
  rw [hs]

theorem blockReadSector_present (hfault : s.device.faults 0 lba = false) :
    blockReadSector lba s = some (some (s.device.sectors lba), s.tick) := by
  unfold blockReadSector
  rw [Program.get_bind,
    if_pos hs, Program.bind_of_some (transferFails_apply lba), hfault]
  rfl

theorem blockWriteSector_present (sector : Sector) :
    blockWriteSector lba sector s =
      if s.device.faults 0 lba then some (-1, s.tick.record lba)
      else some (0, s.tick.put lba sector) := by
  unfold blockWriteSector
  rw [Program.get_bind, if_pos hs, Program.bind_of_some (transferFails_apply lba)]
  cases s.device.faults 0 lba with
  | false => rfl
  | true =>
      have hsame : s.tick.device.sataPresent = s.device.sataPresent := rfl
      rw [System.record, hsame]
      cases s.device.sataPresent with
      | false => rfl
      | true => rfl

omit hs in
theorem blockReadSector_ends (s : System) (lba : Nat) :
    ∃ sector s', blockReadSector lba s = some (sector, s') := by
  unfold blockReadSector
  rw [Program.get_bind]
  split
  · rw [Program.bind_of_some (transferFails_apply lba)]
    cases s.device.faults 0 lba with
    | false => exact ⟨_, _, rfl⟩
    | true =>
        cases s.device.sataPresent with
        | false => exact ⟨_, _, rfl⟩
        | true => exact ⟨_, _, rfl⟩
  · exact ⟨_, _, rfl⟩

omit hs in
theorem blockWriteSector_ends (s : System) (lba : Nat) (sector : Sector) :
    ∃ status s', blockWriteSector lba sector s = some (status, s') := by
  by_cases hs : (s.device.sataPresent || s.device.msPresent) = true
  · rw [blockWriteSector_present lba hs]
    split
    · exact ⟨_, _, rfl⟩
    · exact ⟨_, _, rfl⟩
  · unfold blockWriteSector
    rw [Program.get_bind, if_neg hs]
    exact ⟨_, _, rfl⟩

end Transfer

/-! ## Fault-free transfers -/

section FaultFree

variable {s : System} (h : s.device.FaultFree)

include h

theorem blockIsPresent_eq : blockIsPresent s = some (true, s) :=
  blockIsPresent_present h.present

theorem blockReadSector_eq (lba : Nat) :
    blockReadSector lba s = some (some (s.device.sectors lba), s) := by
  rw [blockReadSector_present lba h.present (by rw [h.faults]),
    System.tick_eq h.faults]

theorem blockWriteSector_eq (lba : Nat) (sector : Sector) :
    blockWriteSector lba sector s = some (0, s.put lba sector) := by
  rw [blockWriteSector_present lba h.present, h.faults,
    if_neg Bool.false_ne_true, System.tick_eq h.faults]

theorem flushCache_eq (warning : String) (count : Nat)
    (hsata : s.device.sataPresent = true) :
    flushCache warning count s = some ((), s) := by
  induction count with
  | zero => rfl
  | succ count ih =>
      have hflush : sataFlushCache s = some (0, s) := by
        unfold sataFlushCache
        rw [Program.get_bind,
          if_pos hsata, Program.bind_of_some (transferFails_apply 0), h.faults,
          System.tick_eq h.faults]
        rfl
      rw [flushCache, Program.bind_of_some hflush]
      exact ih

theorem flushIfSata_eq (warning : String) :
    flushIfSata warning s = some ((), s) := by
  unfold flushIfSata
  rw [Program.get_bind]
  split
  · next hsata => exact flushCache_eq h warning 5 hsata
  · rfl

end FaultFree

/-! ## A disk with an end -/

/-- The device works and has the sectors up to `total - 1`. -/
structure Device.Sized (device : Device) (total : Nat) : Prop where
  present : (device.sataPresent || device.msPresent) = true
  faults : device.faults = fun _ lba => decide (total ≤ lba)

section Sized

variable {s : System} {total lba : Nat} (h : s.device.Sized total)

include h

theorem Device.Sized.put (lba : Nat) (sector : Sector) :
    (s.put lba sector).device.Sized total := ⟨h.present, h.faults⟩

theorem blockWriteSector_sized (hlba : lba < total) (sector : Sector) :
    blockWriteSector lba sector s = some (0, s.put lba sector) := by
  rw [blockWriteSector_present lba h.present, h.faults,
    if_neg (by simpa using hlba), System.tick_eq h.faults]

/-- A write behind the last sector fails, and leaves the disk as it was. -/
theorem blockWriteSector_beyond (hlba : total ≤ lba) (sector : Sector) :
    blockWriteSector lba sector s = some (-1, s.record lba) := by
  rw [blockWriteSector_present lba h.present, h.faults,
    if_pos (by simpa using hlba), System.tick_eq h.faults]

end Sized

end EntropyOS
