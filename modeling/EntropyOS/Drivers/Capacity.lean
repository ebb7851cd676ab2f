import EntropyOS.Drivers.Completion
import EntropyOS.Drivers.MassStorage

/-!
# The capacity of a disk

The USB path looks for the last sector that can be read, first by doubling and
then by bisection, and passes it through the reply to READ CAPACITY.  The SATA
path decodes the words of IDENTIFY DEVICE.  The endpoints are left out, and so
is `usb_host_init`, which never fails.
-/

namespace EntropyOS

open EntropyOS.Foundation

/-! ## The probe -/

/-- `sata_read_sector` as one transfer; `none` is the result -1. -/
def sataReadSector (lba : Nat) : Program System (Option Sector) := do
  let s ← get
  if s.device.sataPresent then
    if ← transferFails lba then
      return none
    return some (s.device.sectors lba)
  return none

/-- The first loop of `probe_sata_last_lba`: `probe` and `last_good` behind it. -/
def probeGrow : (iterations probe lastGood : Nat) → Program System (Nat × Nat)
  | 0, probe, lastGood => return (probe, lastGood)
  | iterations + 1, probe, lastGood => do
      if (← sataReadSector probe).isSome then
        if u64 (probe * 2) = 0 then
          return (u64 (probe * 2), probe)
        probeGrow iterations (u64 (probe * 2)) probe
      else
        return (probe, lastGood)

/-- The second loop of `probe_sata_last_lba`. -/
def probeBisect (lo hi : Nat) : Program System Nat := do
  if lo < hi then
    let mid := lo + (hi - lo + 1) / 2
    if (← sataReadSector mid).isSome then
      probeBisect mid hi
    else
      probeBisect lo (mid - 1)
  else
    return lo
termination_by hi - lo

def probeSataLastLba : Program System Nat := do
  let s ← get
  if ¬ s.device.sataPresent then
    return 0
  let (probe, lastGood) ← probeGrow 30 1048576 0
  if lastGood = 0 then
    let _sector ← sataReadSector 0
    return 0
  probeBisect lastGood (u64 (probe + 18446744073709551615))

/-- `sata_read_sector` succeeds exactly below `total`. -/
structure Device.SataSized (device : Device) (total : Nat) : Prop
    extends device.Sized total where
  sataPresent : device.sataPresent = true

section Probe

variable {s : System} {total : Nat} (h : s.device.SataSized total)

include h

theorem sataReadSector_sized (lba : Nat) :
    sataReadSector lba s = some
      (if lba < total then some (s.device.sectors lba) else none, s) := by
  unfold sataReadSector
  rw [Program.get_bind,
    if_pos h.sataPresent, Program.bind_of_some (transferFails_apply lba), h.faults,
    System.tick_eq h.faults]
  by_cases hlba : lba < total
  · rw [if_neg (by simpa using hlba), if_pos hlba]
    rfl
  · rw [if_pos (by simpa using hlba), if_neg hlba]
    rfl

/--
Doubling stops at an address behind the disk, and `last_good` is on the disk as
soon as one read has succeeded.
-/
theorem probeGrow_eq (iterations : Nat) {probe : Nat} (lastGood : Nat)
    (hprobe : 0 < probe) (hcap : total ≤ probe * 2 ^ iterations)
    (hmax : probe * 2 ^ iterations < 18446744073709551616) :
    ∃ probe' lastGood',
      probeGrow iterations probe lastGood s = some ((probe', lastGood'), s) ∧
      0 < probe' ∧ probe' < 18446744073709551616 ∧ total ≤ probe' ∧
      (probe < total → probe ≤ lastGood' ∧ lastGood' < total) ∧
      (total ≤ probe → lastGood' = lastGood) := by
  induction iterations generalizing probe lastGood with
  | zero =>
      rw [pow_zero, Nat.mul_one] at hcap hmax
      exact ⟨probe, lastGood, rfl, hprobe, hmax, hcap, fun hlt => by omega,
        fun _ => rfl⟩
  | succ iterations ih =>
      have hpow : probe * 2 ^ (iterations + 1) = probe * 2 * 2 ^ iterations := by
        rw [pow_succ', Nat.mul_assoc]
      rw [hpow] at hcap hmax
      have hsmall : probe * 2 < 18446744073709551616 :=
        lt_of_le_of_lt (Nat.le_mul_of_pos_right _ Nat.one_le_two_pow) hmax
      have hdouble : u64 (probe * 2) = probe * 2 := Nat.mod_eq_of_lt hsmall
      rw [probeGrow, Program.bind_of_some (sataReadSector_sized h probe), hdouble]
      by_cases hlt : probe < total
      · obtain ⟨probe', lastGood', hrun, hpos, hword, hend, hgood, hkept⟩ :=
          ih probe (by omega) hcap hmax
        refine ⟨probe', lastGood', ?_, hpos, hword, hend, fun _ => ?_,
          fun hle => by omega⟩
        · rw [if_pos hlt, if_pos Option.isSome_some, if_neg (by omega)]
          exact hrun
        · by_cases hnext : probe * 2 < total
          · obtain ⟨hlow, hhigh⟩ := hgood hnext
            exact ⟨by omega, hhigh⟩
          · rw [hkept (Nat.le_of_not_lt hnext)]
            exact ⟨le_rfl, hlt⟩
      · refine ⟨probe, lastGood, ?_, hprobe, by omega, Nat.le_of_not_lt hlt,
          fun hlt' => absurd hlt' hlt, fun _ => rfl⟩
        rw [if_neg hlt, if_neg (by simp)]
        rfl

theorem probeBisect_eq {lo hi : Nat} (hlo : lo < total) (hhi : total ≤ hi + 1) :
    probeBisect lo hi s = some (total - 1, s) := by
  induction hwidth : hi - lo using Nat.strong_induction_on generalizing lo hi with
  | _ width ih =>
      rw [probeBisect]
      by_cases hlt : lo < hi
      · rw [if_pos hlt, Program.bind_of_some (sataReadSector_sized h _)]
        by_cases hmid : lo + (hi - lo + 1) / 2 < total
        · rw [if_pos hmid, if_pos Option.isSome_some]
          exact ih _ (by omega) hmid hhi rfl
        · rw [if_neg hmid, if_neg (by simp)]
          exact ih _ (by omega) hlo (by omega) rfl
      · rw [if_neg hlt]
        have hlast : total - 1 = lo := by omega
        rw [hlast]
        rfl

/-- The cap on the doublings leaves room for more than `2 ^ 48` sectors. -/
theorem probeSataLastLba_eq (hlow : 1048576 < total)
    (hhigh : total ≤ 1125899906842624) :
    probeSataLastLba s = some (total - 1, s) := by
  obtain ⟨probe, lastGood, hgrow, hpos, hword, hend, hgood, -⟩ :=
    probeGrow_eq h 30 0 (show 0 < 1048576 by decide) (by omega) (by decide)
  obtain ⟨hstart, hlast⟩ := hgood hlow
  have hpred : u64 (probe + 18446744073709551615) = probe - 1 := by
    unfold u64
    omega
  unfold probeSataLastLba
  rw [Program.get_bind,
    if_neg (not_not_intro h.sataPresent), Program.bind_of_some hgrow]
  simp only
  rw [if_neg (by omega), hpred]
  exact probeBisect_eq h hlast (by omega)

end Probe

/--
On a disk of more than `2 ^ 20` and at most `2 ^ 48` sectors the probe ends, and
returns the last address.
-/
theorem probe_exact {s : System} {total : Nat} (h : s.device.SataSized total)
    (hlow : 1048576 < total) (hhigh : total ≤ 281474976710656) :
    probeSataLastLba s = some (total - 1, s) :=
  probeSataLastLba_eq h hlow (by omega)

/-- The system as the image is loaded, with a SATA disk of `total` sectors. -/
def System.sataStartup (total : Nat) : System where
  device := { (System.startup fun _ => Sector.zero).device with
    sataPresent := true
    faults := fun _ lba => decide (total ≤ lba) }
  console := []
  gpt := Gpt.Statics.startup
  fat32 := Fat32.Statics.startup

theorem System.sataStartup_sized (total : Nat) :
    (System.sataStartup total).device.SataSized total := ⟨⟨rfl, rfl⟩, rfl⟩

theorem gigabyte_probed :
    probeSataLastLba (System.sataStartup 2097152) =
      some (2097151, System.sataStartup 2097152) :=
  probe_exact (System.sataStartup_sized 2097152) (by decide) (by decide)

/-! ## The two paths -/

namespace Usb

def usbHostFindMassStorage : Program Host Int := do
  let s ← get
  if ¬ s.system.device.sataPresent then
    onSystem (text "usb_host: no backend (sata) available for MS emulation\n")
    return -1
  if s.usbms.lastLba = 0 then
    let last ← onSystem probeSataLastLba
    modifyUsbms fun u => { u with lastLba := last, blockSize := 512 }
    if last = 0 then
      onSystem (text "usb_host: MS emulation: could not probe SATA disk size\n")
      return -1
  onSystem (text "usb_host: MS emulation available (backed by SATA)\n")
  return 0

def readCapacityCommand : Buf := Buf.ofList [0x25, 0, 0, 0, 0, 0, 0, 0, 0, 0]

def readBe32 (buf : Buf) (offset : Nat) : Nat :=
  (buf offset).toNat * 16777216 + (buf (offset + 1)).toNat * 65536 +
    (buf (offset + 2)).toNat * 256 + (buf (offset + 3)).toNat

def msInit : Program Host Int := do
  if (← get).ms.present then
    return 0
  if (← usbHostFindMassStorage) ≠ 0 then
    return -1
  if (← sendCbw 1 0x80 readCapacityCommand 10 8) ≠ 0 then
    return -1
  let (status, data, _) ← bulkIn stackBytes 8 0
  if status ≠ 0 then
    return -1
  let (status, _) ← recvCsw 1 stackBytes
  if status ≠ 0 then
    return -1
  let lastLba := readBe32 data 0
  let blockLen := readBe32 data 4
  modify fun s => { s with ms := {
    numBlocks := lastLba + 1
    blockSize := if blockLen ≠ 0 then blockLen else 512
    present := true } }
  return 0

section Capacity

variable {s : Host} {total : Nat}

theorem usbHostFindMassStorage_eq (h : s.system.device.SataSized total)
    (hlast : s.usbms.lastLba = 0) (hlow : 1048576 < total)
    (hhigh : total ≤ 1125899906842624) :
    ∃ system, usbHostFindMassStorage s = some (0, { s with
      system := system
      usbms := { s.usbms with lastLba := total - 1, blockSize := 512 } }) := by
  have hprobe : onSystem probeSataLastLba s = some (total - 1, s) :=
    onSystem_of_some (probeSataLastLba_eq h hlow hhigh)
  unfold usbHostFindMassStorage
  rw [Program.get_bind, if_neg (not_not_intro h.sataPresent), if_pos hlast,
    Program.bind_of_some hprobe]
  refine ⟨{ s.system with console :=
    "usb_host: MS emulation available (backed by SATA)\n" ::
      s.system.console }, ?_⟩
  rw [Program.bind_of_some (show modifyUsbms _ s = some ((), _) from rfl),
    if_neg (by omega)]
  rfl

theorem readBe32_capacity (u : Usbms) (out : Buf) :
    readBe32 (out.overlay 0 8 u.capacity) 0 = u32 u.lastLba ∧
      readBe32 (out.overlay 0 8 u.capacity) 4 = u32 u.blockSize := by
  have hbytes : ∀ k < 8, out.overlay 0 8 u.capacity k = u.capacity k := by
    intro k hk
    rw [Buf.overlay, if_pos (by omega)]
    rfl
  constructor
  · simp only [readBe32, hbytes 0 (by decide), hbytes (0 + 1) (by decide),
      hbytes (0 + 2) (by decide), hbytes (0 + 3) (by decide)]
    change (byteOf (u32 u.lastLba) 3).toNat * 16777216 +
      (byteOf (u32 u.lastLba) 2).toNat * 65536 +
      (byteOf (u32 u.lastLba) 1).toNat * 256 +
      (byteOf (u32 u.lastLba) 0).toNat = u32 u.lastLba
    simp only [byteOf_toNat]
    unfold u32
    omega
  · simp only [readBe32, hbytes 4 (by decide), hbytes (4 + 1) (by decide),
      hbytes (4 + 2) (by decide), hbytes (4 + 3) (by decide)]
    change (byteOf u.blockSize 3).toNat * 16777216 +
      (byteOf u.blockSize 2).toNat * 65536 +
      (byteOf u.blockSize 1).toNat * 256 +
      (byteOf u.blockSize 0).toNat = u32 u.blockSize
    simp only [byteOf_toNat]
    unfold u32
    omega

theorem msInit_eq (h : s.system.device.SataSized total)
    (hpresent : s.ms.present = false) (hlast : s.usbms.lastLba = 0)
    (hlow : 1048576 < total) (hhigh : total ≤ 4294967296) :
    ∃ s', msInit s = some (0, s') ∧ s'.ms.numBlocks = total := by
  obtain ⟨system, hfind⟩ :=
    usbHostFindMassStorage_eq h hlast hlow (by omega)
  let u := { s.usbms with lastLba := total - 1, blockSize := 512 }.acceptCbw
    (cbwPacket 1 0x80 readCapacityCommand 10 8)
  have hpending : u.ReadPending 0x25 :=
    ⟨rfl, show (0x80 : UInt8) &&& 0x80 ≠ 0 by decide,
      acceptCbw_cdb _ 1 0x80 readCapacityCommand 8 0 (by decide)⟩
  have htag : u.cbwTag = 1 := acceptCbw_tag _ 0x80 readCapacityCommand 8 (by decide)
  have hin : bulkIn stackBytes 8 0 ⟨system, u, s.ms⟩ =
      some ((0, stackBytes.overlay 0 8 u.capacity, 8),
        ⟨system, u.prepareCsw, s.ms⟩) := by
    unfold bulkIn
    rw [Program.get_bind]
    simp only
    rw [if_pos hpending, if_neg (by decide)]
    rfl
  obtain ⟨out', hcsw⟩ :=
    recvCsw_prepared ⟨system, u, s.ms⟩ u stackBytes htag (by decide)
  have hlba : readBe32 (stackBytes.overlay 0 8 u.capacity) 0 = total - 1 := by
    rw [(readBe32_capacity u stackBytes).1]
    exact u32_of_lt (show total - 1 < 4294967296 by omega)
  unfold msInit
  rw [Program.get_bind,
    if_neg (by simp [hpresent]), Program.bind_of_some hfind, if_neg (by decide),
    Program.bind_of_some (sendCbw_eq 1 0x80 readCapacityCommand 8 _),
    if_neg (by decide), Program.bind_of_some hin]
  simp only
  rw [if_neg (by decide), Program.bind_of_some hcsw]
  simp only
  rw [if_neg (by decide)]
  refine ⟨_, rfl, ?_⟩
  change readBe32 (stackBytes.overlay 0 8 u.capacity) 0 + 1 = total
  omega

end Capacity

end Usb

/-! ## IDENTIFY DEVICE -/

namespace Ahci

/--
The disk answers IDENTIFY DEVICE, and its words 100 to 103 hold the number of
sectors.
-/
structure State.Identifies (s : State) (total : Nat) : Prop where
  usable : s.Usable
  answered : ∃ slot s₁ s₂,
    ahciFindFreeSlot s.portBase s = some (some slot, s₁) ∧
    ahciIssueAndWait s.portBase slot (s₁.record (.build slot
      (Command.make false 1 (some fun _ => 0) 512 ataIdentify 0 0))) =
        some (0, s₂) ∧
    ∀ i < 4, identifyWord (s₂.controller.delivers s₂.accesses fun _ => 0)
      (100 + i) = total / 65536 ^ i % 65536

theorem identifyTotal_of_words {buf : Buf} {total : Nat}
    (hwords : ∀ i < 4, identifyWord buf (100 + i) = total / 65536 ^ i % 65536)
    (hpos : 0 < total) (hword : total < 18446744073709551615) :
    identifyTotal buf = some (total + 1) := by
  have hsum : total / 65536 ^ 3 % 65536 * 281474976710656 +
      total / 65536 ^ 2 % 65536 * 4294967296 +
      total / 65536 ^ 1 % 65536 * 65536 + total / 65536 ^ 0 % 65536 = total := by
    omega
  unfold identifyTotal
  simp only [hwords 0 (by decide), hwords 1 (by decide), hwords 2 (by decide),
    hwords 3 (by decide), hsum]
  rw [if_pos (by omega), u64, Nat.mod_eq_of_lt (by omega)]

/-- The SATA path takes the number of sectors for the last address. -/
theorem sataGetNumBlocks_eq {s : State} {total : Nat} (h : s.Identifies total)
    (hpos : 0 < total) (hword : total < 18446744073709551615) :
    Returns sataGetNumBlocks s (some (total + 1)) := by
  obtain ⟨slot, s₁, s₂, hslot, hrun, hwords⟩ := h.answered
  refine ⟨s₂, ?_⟩
  unfold sataGetNumBlocks
  rw [Program.get_bind, if_neg (not_not_intro h.usable), Program.bind_of_some hslot]
  simp only
  rw [Program.bind_of_some (show ahciBuildCmd slot _ s₁ = some ((), _) from rfl),
    Program.bind_of_some hrun, if_neg (by decide), Program.get_bind]
  rw [identifyTotal_of_words hwords hpos hword]
  rfl

end Ahci

/-- Both paths report `total` sectors. -/
def CapacitiesAgree (sata : Ahci.State) (s : Usb.Host) (total : Nat) : Prop :=
  Returns Ahci.sataGetNumBlocks sata (some total) ∧
  ∃ s', Usb.msInit s = some (0, s') ∧ s'.ms.numBlocks = total

/-- The SATA path reports one sector more than the USB path. -/
theorem capacities_differ {sata : Ahci.State} {s : Usb.Host} {total : Nat}
    (hsata : sata.Identifies total) (h : s.system.device.SataSized total)
    (hpresent : s.ms.present = false) (hlast : s.usbms.lastLba = 0)
    (hlow : 1048576 < total) (hhigh : total ≤ 4294967296) :
    Returns Ahci.sataGetNumBlocks sata (some (total + 1)) ∧
    (∃ s', Usb.msInit s = some (0, s') ∧ s'.ms.numBlocks = total) ∧
    ¬ CapacitiesAgree sata s total := by
  have hcount := Ahci.sataGetNumBlocks_eq hsata (by omega) (by omega)
  refine ⟨hcount, Usb.msInit_eq h hpresent hlast hlow hhigh, ?_⟩
  rintro ⟨hagree, -⟩
  have hsame := hcount.unique hagree
  simp at hsame

/-- A controller that completes every command at once, over a disk of `total`. -/
def Ahci.promptController (total : Nat) : Ahci.Controller where
  shows := fun _ _ => 0
  delivers := fun _ _ k => if 200 ≤ k then byteOf total (k - 200) else 0

theorem Ahci.prompt_identifies :
    (State.startup (promptController 2097152)).Identifies 2097152 := by
  refine ⟨⟨rfl, by decide⟩, 0, _, _, ahciFindFreeSlot_first _ _ rfl rfl, rfl, ?_⟩
  intro i hi
  interval_cases i <;> rfl

/-- The driver as the image is loaded, with a SATA disk of `total` sectors. -/
def Usb.Host.unprobed (total : Nat) : Usb.Host where
  system := System.sataStartup total
  usbms := Usb.Usbms.startup
  ms := ⟨512, false, 0⟩

theorem gigabyte_differs :
    Returns Ahci.sataGetNumBlocks
      (Ahci.State.startup (Ahci.promptController 2097152)) (some 2097153) ∧
    (∃ s', Usb.msInit (Usb.Host.unprobed 2097152) = some (0, s') ∧
      s'.ms.numBlocks = 2097152) ∧
    ¬ CapacitiesAgree (Ahci.State.startup (Ahci.promptController 2097152))
      (Usb.Host.unprobed 2097152) 2097152 :=
  capacities_differ Ahci.prompt_identifies (System.sataStartup_sized 2097152)
    rfl rfl (by decide) (by decide)

/-- The SATA path counts a sector too many on a disk of 1 GiB. -/
theorem gigabyte_miscounted :
    ¬ CapacitiesAgree (Ahci.State.startup (Ahci.promptController 2097152))
      (Usb.Host.unprobed 2097152) 2097152 := by
  rintro ⟨hagree, -⟩
  have hcount := Ahci.sataGetNumBlocks_eq Ahci.prompt_identifies (by decide)
    (by decide)
  have hsame := hcount.unique hagree
  simp at hsame

end EntropyOS
