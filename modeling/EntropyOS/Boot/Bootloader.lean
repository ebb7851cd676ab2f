import EntropyOS.Boot.Partitioning
import EntropyOS.Fat32.Files
import EntropyOS.Gpt.Reload

/-!
# The bootloader before exFAT is mounted

`efi_main` of the bootloader, from the point where the drivers are up to its
first call of `exfat_init`, call by call.  A run is followed through its points
and not to its end, so that what it wrote is known even if a later call never
returns.
-/

namespace EntropyOS.Boot

open EntropyOS.Foundation EntropyOS.Gpt

/-- Where the run stands; the last two points are its ends. -/
inductive Point where
  | efiMain
  | forceInstall
  | wipe (totalSectors : UInt64)
  | partition (totalSectors : UInt64)
  | formatBoot
  | makeEfi
  | makeBoot (efiCluster : Nat)
  | writeLoader (bootCluster : Nat)
  | formatData
  | exfatInit
  | finished

def efiDirectory : List UInt8 := [0x45, 0x46, 0x49]

def loaderName : List UInt8 :=
  [0x42, 0x4F, 0x4F, 0x54, 0x58, 0x36, 0x34, 0x2E, 0x45, 0x46, 0x49]

def wipeSectors : (count lba : Nat) → Program System Int
  | 0, _ => return 0
  | count + 1, lba => do
      if (← blockWriteSector lba Sector.zero) ≠ 0 then
        return -1
      wipeSectors count (lba + 1)

def wipeDiskHeaders : Program System Int := do
  unless ← blockIsPresent do
    return -1
  wipeSectors 34 0

/-- `bootloader_force_install` returned -1. -/
def giveUp (message : String) : Program System Point := do
  text message
  text "Bootloader: forced install failed — cannot continue\r\n"
  return .finished

/--
What the results hold for any choice of: the program that is installed, what
`exfat_format` does, and the uninitialised records that `gpt_get_partition` fills.
-/
structure Parts where
  bootEfi : List UInt8
  exfatFormat : (firstLba sectors : UInt64) → Program System Int
  info : PartitionInfo

section Steps

variable (parts : Parts)

/-- `gpt_get_partition(index, &pi) == 0 && pi.valid`, with the record. -/
def findPartition (index : UInt32) : Program System (Option PartitionInfo) := do
  match ← gptGetPartition index (some parts.info) with
  | (status, some info) => return if status = 0 ∧ info.valid ≠ 0 then some info else none
  | (_, none) => return none

/-- The call made at a point, and the point it leads to. -/
def step : Point → Program System Point
  | .efiMain => do
      match ← findPartition parts 1 with
      | some _ => return .exfatInit
      | none =>
          text "Bootloader: DATA partition missing — attempting forced reinstall\r\n"
          return .forceInstall
  | .forceInstall => do
      text "Bootloader: performing forced reinstall (wipe -> partition -> format)\r\n"
      let s ← get
      if s.device.msPresent then
        return .wipe s.device.msBlocks
      if s.device.sataPresent then
        match s.device.sataBlocks with
        | some totalSectors => return .wipe totalSectors
        | none => giveUp "Bootloader: unable to read SATA capacity\r\n"
      else
        giveUp "Bootloader: no writable backend present\r\n"
  | .wipe totalSectors => do
      -- the result is not looked at
      let _ ← wipeDiskHeaders
      return .partition totalSectors
  | .partition totalSectors => do
      if (← bootloaderPartition totalSectors) ≠ 0 then
        text "Bootloader: forced install failed — cannot continue\r\n"
        return .finished
      return .formatBoot
  | .formatBoot => do
      match ← findPartition parts 0 with
      | some info =>
          Fat32.setPartitionOffset info.firstLba.toNat
          let sectors := info.lastLba - info.firstLba + 1
          if (← Fat32.format sectors (some bootName)) ≠ 0 then
            text "Bootloader: FAT32 format failed\r\n"
            return .formatData
          if (← Fat32.init) ≠ 0 then
            text "Bootloader: FAT32 format failed\r\n"
            return .formatData
          return .makeEfi
      | none =>
          text "Bootloader: Failed to get partition 0 info\r\n"
          return .formatData
  | .makeEfi => do
      let root := (← Fat32.getFs).rootDirCluster
      let found ← Fat32.findDirectory root efiDirectory
      if found ≠ 0 then
        return .makeBoot found
      let _ ← Fat32.createDirectoryIn root efiDirectory
      let made ← Fat32.findDirectory root efiDirectory
      if made ≠ 0 then
        return .makeBoot made
      text "Bootloader: failed to create/find EFI directory\r\n"
      return .formatData
  | .makeBoot efiCluster => do
      let _ ← Fat32.createDirectoryIn efiCluster bootName
      let made ← Fat32.findDirectory efiCluster bootName
      if made = 0 then
        text "Bootloader: failed to create/find EFI/BOOT directory\r\n"
        return .formatData
      return .writeLoader made
  | .writeLoader bootCluster => do
      if (← Fat32.writeFileIn bootCluster loaderName parts.bootEfi) ≠ 0 then
        text "Bootloader: Failed to write BOOTX64.EFI to FAT32\r\n"
        return .formatData
      flushIfSata
        "Bootloader: warning — sata_flush_cache after BOOTX64.EFI failed\r\n"
      text "Bootloader: BOOTX64.EFI written and flushed to FAT32\r\n"
      return .formatData
  | .formatData => do
      match ← findPartition parts 1 with
      | some info =>
          let sectors := info.lastLba - info.firstLba + 1
          if (← parts.exfatFormat info.firstLba sectors) ≠ 0 then
            giveUp "Bootloader: ExFAT format/init failed for DATA partition\r\n"
          else
            return .exfatInit
      | none =>
          giveUp
            "Bootloader: Failed to get DATA partition info (index 1) after GPT create\r\n"
  | .exfatInit => return .exfatInit
  | .finished => return .finished

/-- The points and states a run from `s` passes through. -/
inductive Passes (s : System) : Point → System → Prop
  | start : Passes s .efiMain s
  | step {p q : Point} {t t' : System} :
      Passes s p t → step parts p t = some (q, t') → Passes s q t'

/-! ## What is written before exFAT is mounted -/

/-- No block write was issued before `exfat_init` was called. -/
def WritesNothing (s : System) : Prop :=
  ∀ p t, Passes parts s p t → t.device.writes = s.device.writes

private theorem blockWriteSector_recorded (lba : Nat) (sector : Sector)
    {s : System} (hs : (s.device.sataPresent || s.device.msPresent) = true) :
    ∃ status s', blockWriteSector lba sector s = some (status, s') ∧
      s'.device.writes = lba :: s.device.writes ∧
      (s'.device.sataPresent || s'.device.msPresent) = true := by
  rw [blockWriteSector_present lba hs]
  cases s.device.faults 0 lba with
  | false => exact ⟨0, s.tick.put lba sector, rfl, rfl, hs⟩
  | true => exact ⟨-1, s.tick.record lba, rfl, rfl, hs⟩

/-- The loop ends, and what it wrote before stays on record. -/
private theorem exists_wipeSectors {count lba : Nat} {s : System}
    (hs : (s.device.sataPresent || s.device.msPresent) = true) :
    ∃ status s', wipeSectors count lba s = some (status, s') ∧
      s.device.writes <:+ s'.device.writes := by
  induction count generalizing lba s with
  | zero => exact ⟨0, s, rfl, List.suffix_rfl⟩
  | succ count ih =>
      obtain ⟨status, t, hwrite, hwrites, ht⟩ :=
        blockWriteSector_recorded lba Sector.zero hs
      rw [wipeSectors, Program.bind_of_some hwrite]
      have hsuffix : s.device.writes <:+ t.device.writes := by
        rw [hwrites]
        exact List.suffix_cons _ _
      split
      · exact ⟨-1, t, rfl, hsuffix⟩
      · obtain ⟨status', s', hrest, hmore⟩ := @ih (lba + 1) t ht
        exact ⟨status', s', hrest, hsuffix.trans hmore⟩

private theorem exists_wipe {s : System}
    (hs : (s.device.sataPresent || s.device.msPresent) = true)
    (totalSectors : UInt64) :
    ∃ s', step parts (.wipe totalSectors) s = some (.partition totalSectors, s') ∧
      s'.device.writes ≠ s.device.writes := by
  obtain ⟨status, t, hwrite, hwrites, ht⟩ :=
    blockWriteSector_recorded 0 Sector.zero hs
  obtain ⟨status', s', hrest, hmore⟩ :=
    @exists_wipeSectors 33 1 t ht
  have hlonger : s'.device.writes ≠ s.device.writes := by
    intro heq
    have hlength := hmore.length_le
    rw [hwrites, heq, List.length_cons] at hlength
    omega
  have hwipe : ∃ status'' s'', wipeDiskHeaders s = some (status'', s'') ∧
      s''.device.writes ≠ s.device.writes := by
    rw [wipeDiskHeaders, Program.bind_of_some (blockIsPresent_present hs),
      if_pos rfl, wipeSectors, Program.bind_of_some hwrite]
    split
    · refine ⟨-1, t, rfl, fun heq => ?_⟩
      simp [hwrites] at heq
    · exact ⟨status', s', hrest, hlonger⟩
  obtain ⟨status'', s'', hrun, hne⟩ := hwipe
  refine ⟨s'', ?_, hne⟩
  rw [step, Program.bind_of_some hrun]
  rfl

/-- Before `gpt_init` has run, no partition is found. -/
private theorem step_efiMain {s : System} (hinit : s.gpt.initialized = false) :
    ∃ console, step parts .efiMain s =
      some (.forceInstall, { s with console := console }) := by
  have hget : gptGetPartition 1 (some parts.info) s =
      some ((-1, some parts.info), s) := by
    change some (s.gpt.partitionInfo 1 (some parts.info), s) = _
    rw [Statics.partitionInfo, hinit]
    rfl
  have hfind : findPartition parts 1 s = some (none, s) := by
    rw [findPartition, Program.bind_of_some hget]
    rfl
  rw [step, Program.bind_of_some hfind]
  exact ⟨_, rfl⟩

/-- The installation stops before it writes when the size is not known. -/
private theorem step_forceInstall {s : System}
    (hms : s.device.msPresent = false) (hblocks : s.device.sataBlocks = none) :
    ∃ console, step parts .forceInstall s =
      some (.finished, { s with console := console }) := by
  obtain ⟨⟨sata, ms, msBlocks, blocks, sectors, faults, writes⟩, console, gpt,
    fat32⟩ := s
  subst hms hblocks
  cases sata with
  | false => exact ⟨_, rfl⟩
  | true => exact ⟨_, rfl⟩

private theorem step_forceInstall_wipe {s : System}
    (hs : (s.device.sataPresent || s.device.msPresent) = true)
    (hsize : ¬ (s.device.msPresent = false ∧ s.device.sataBlocks = none)) :
    ∃ totalSectors console, step parts .forceInstall s =
      some (.wipe totalSectors, { s with console := console }) := by
  obtain ⟨⟨sata, ms, msBlocks, blocks, sectors, faults, writes⟩, console, gpt,
    fat32⟩ := s
  cases ms with
  | true => exact ⟨msBlocks, _, rfl⟩
  | false =>
      have hsata : sata = true := by simpa using hs
      subst hsata
      cases blocks with
      | none => simp at hsize
      | some totalSectors => exact ⟨totalSectors, _, rfl⟩

/--
`efi_main` asks for the DATA partition without having loaded the table, so
with a device to write to, it always gets as far as the first write.
-/
theorem writesNothing_iff {s : System} (hgpt : s.gpt = Statics.startup)
    (hpresent : (s.device.sataPresent || s.device.msPresent) = true) :
    WritesNothing parts s ↔
      s.device.msPresent = false ∧ s.device.sataBlocks = none := by
  obtain ⟨console, hfirst⟩ := step_efiMain parts (s := s) (by rw [hgpt]; rfl)
  constructor
  · intro hnothing
    by_contra hsize
    obtain ⟨totalSectors, console', hsecond⟩ :=
      step_forceInstall_wipe parts (s := { s with console := console }) hpresent hsize
    obtain ⟨t, hwipe, hne⟩ := exists_wipe parts
      (s := { s with console := console' }) hpresent totalSectors
    exact hne (hnothing _ t (.step (.step (.step .start hfirst) hsecond) hwipe))
  · rintro ⟨hms, hblocks⟩ p t hpasses
    obtain ⟨console', hsecond⟩ := step_forceInstall parts
      (s := { s with console := console }) hms hblocks
    -- the run is over after two calls
    have hpoints : (p = .efiMain ∧ t = s) ∨
        (p = .forceInstall ∧ t = { s with console := console }) ∨
        (p = .finished ∧ t = { s with console := console' }) := by
      induction hpasses with
      | start => exact .inl ⟨rfl, rfl⟩
      | step _ hstep ih =>
          rcases ih with ⟨rfl, rfl⟩ | ⟨rfl, rfl⟩ | ⟨rfl, rfl⟩
          · rw [hfirst] at hstep
            cases hstep
            exact .inr (.inl ⟨rfl, rfl⟩)
          · rw [hsecond] at hstep
            cases hstep
            exact .inr (.inr ⟨rfl, rfl⟩)
          · cases hstep
            exact .inr (.inr ⟨rfl, rfl⟩)
    rcases hpoints with ⟨-, rfl⟩ | ⟨-, rfl⟩ | ⟨-, rfl⟩
    · rfl
    · rfl
    · rfl

end Steps

/-! ## A valid installation -/

/-- `gpt_init` finds a DATA partition on the disk of the system. -/
def Installed (s : System) : Prop :=
  ∃ s', gptInit s = some (0, s') ∧ ¬ (s'.gpt.partitions 1).typeGuid.IsZero

private theorem exists_installed :
    ∃ disk : Nat → Sector, ∀ s : System, s.device.FaultFree →
      s.device.sectors = disk → Installed s := by
  have hs := System.startup_faultFree fun _ => Sector.zero
  obtain ⟨created, once, twice, hcreate, hadd, hadd', -, -, -, hdata⟩ :=
    exists_create_two hs 1000000 none fatStart fatEnd exfatStart
      (exfatEnd 1000000) (by decide) (by decide) (by decide) (by decide)
      (by decide) (by decide) efiSystemType_not_zero microsoftBasicDataType
      (some bootName) (some dataName)
  obtain ⟨-, htable⟩ := History.table_of_create hs (by decide) hcreate
    (.edit (.edit .start hadd) hadd')
  refine ⟨twice.device.sectors, fun s hfree hsectors => ?_⟩
  obtain ⟨s', hrun, -, hgpt, -⟩ := htable.gptInit_executes s.gpt s
    ⟨hfree, rfl, hsectors⟩
  refine ⟨s', hrun, ?_⟩
  have hentry : s'.gpt.partitions 1 = twice.gpt.partitions 1 := by
    rw [hgpt]
    rfl
  rw [hentry, hdata.typeGuid]
  exact microsoftBasicDataType_not_zero

/-- An empty image, and a formatter that fails at once. -/
private def emptyParts : Parts where
  bootEfi := []
  exfatFormat := fun _ _ => return -1
  info :=
    { typeGuid := fun _ => 0
      partitionGuid := fun _ => 0
      firstLba := 0
      lastLba := 0
      attributes := 0
      name := fun _ => 0
      valid := 0 }

/-- On a SATA disk that works, the installation is wiped. -/
theorem valid_installation_wiped :
    ¬ ∀ (parts : Parts) (s : System), s.gpt = Statics.startup →
      (s.device.sataPresent || s.device.msPresent) = true → Installed s →
      WritesNothing parts s := by
  intro hclaim
  let parts := emptyParts
  obtain ⟨disk, hdisk⟩ := exists_installed
  have hfree := System.startup_faultFree disk
  have hnothing := hclaim parts (System.startup disk) rfl rfl (hdisk _ hfree rfl)
  obtain ⟨console, hfirst⟩ := step_efiMain parts (s := System.startup disk) rfl
  obtain ⟨totalSectors, console', hsecond⟩ := step_forceInstall_wipe parts
    (s := { System.startup disk with console := console }) rfl (by simp [System.startup])
  obtain ⟨t, hwipe, hne⟩ := exists_wipe parts
    (s := { System.startup disk with console := console' }) rfl totalSectors
  exact hne (hnothing _ t (.step (.step (.step .start hfirst) hsecond) hwipe))

/-- When the drive does not report its size, the installation is left alone. -/
theorem installation_kept_without_size :
    ∃ (parts : Parts) (s : System), Installed s ∧ WritesNothing parts s := by
  obtain ⟨disk, hdisk⟩ := exists_installed
  let start := System.startup disk
  let s := { start with device := { start.device with sataBlocks := none } }
  exact ⟨emptyParts, s, hdisk s ⟨rfl, rfl⟩ rfl,
    (writesNothing_iff emptyParts (s := s) rfl rfl).mpr ⟨rfl, rfl⟩⟩

end EntropyOS.Boot
