import EntropyOS.Gpt.Loading

/-!
# The memory that loading touches

`gpt_init` takes sizes from the disk and uses them as they are.  Here every
access of the function is made under a demand: that it lies in the header copy,
in the sector buffer or in the partition array, or that a divisor is not zero.
A disk is harmless if this guarded function gets through.
-/

namespace EntropyOS.Gpt

open EntropyOS.Foundation

/-! ## The guarded function -/

namespace Guarded

/-- `crc32` over an object of `size` bytes. -/
def crc32From (size : Nat) (data : Buf) :
    (start count : Nat) → UInt32 → Program System UInt32
  | _, 0, crc => return crc
  | start, count + 1, crc => do
      demand (start < size)
      crc32From size data (start + 1) count (crc32Step crc (data start))

def crc32 (size : Nat) (data : Buf) (length : Nat) : Program System UInt32 := do
  return (← crc32From size data 0 length 0xFFFFFFFF) ^^^ 0xFFFFFFFF

def loadEntries (buf : Buf) (entriesToRead entrySize baseEntry : Nat) :
    (count j : Nat) → (Fin 128 → Entry) → Program System (Fin 128 → Entry)
  | 0, _, partitions => return partitions
  | count + 1, j, partitions =>
      if baseEntry + j ≥ entriesToRead then return partitions
      else do
        demand (baseEntry + j < maxPartitions)
        demand (j * entrySize + 128 ≤ 512)
        loadEntries buf entriesToRead entrySize baseEntry count (j + 1)
          (Function.update partitions (Fin.ofNat 128 (baseEntry + j))
            (Entry.ofBytes fun k => buf (j * entrySize + k)))

def loadSectors (entriesToRead entrySize entriesLba : Nat) :
    (count i : Nat) → Program System Int
  | 0, _ => return 0
  | count + 1, i => do
      let some sector ← blockReadSector (u64 (entriesLba + i)) | return -1
      demand (entrySize ≠ 0)
      let entriesThisSector := 512 / entrySize
      let baseEntry := u32 (i * entriesThisSector)
      let g ← getGpt
      let partitions ← loadEntries (g.sectorBytes sector) entriesToRead
        entrySize baseEntry entriesThisSector 0 g.partitions
      modifyGpt fun g => { g with partitions := partitions }
      loadSectors entriesToRead entrySize entriesLba count (i + 1)

def loadArray (header : Header) : Program System Int :=
  loadSectors header.entriesToRead header.partitionEntrySize.toNat
    header.partitionEntriesLba.toNat header.sectorsNeeded 0

/-- `gpt_init`, with the header copy 92 bytes long. -/
def gptInit : Program System Int := do
  unless ← blockIsPresent do
    return -1
  let some sector ← blockReadSector 1 | return -1
  modifyGpt fun g => { g with header := .ofBytes sector.toBuf }
  let g ← getGpt
  if g.header.signature ≠ signatureBytes then
    return -1
  if g.header.revision ≠ gptRevision then
    return -1
  let savedCrc := g.header.headerCrc32
  modifyGpt fun g => { g with header := g.header.withCrc 0 }
  let cleared ← getGpt
  let calcCrc ← crc32 92 cleared.headerBytes cleared.header.headerSize.toNat
  if savedCrc ≠ calcCrc then
    return -1
  modifyGpt fun g => { g with header := g.header.withCrc savedCrc }
  if (← loadArray g.header) ≠ 0 then
    return -1
  modifyGpt fun g => { g with initialized := true }
  return 0

end Guarded

/-! ## Where the demands are met -/

theorem guarded_crc32From (size : Nat) (data : Buf) {start count : Nat}
    (crc : UInt32) (s : System) :
    Guarded.crc32From size data start count crc s =
      if count = 0 ∨ start + count ≤ size then
        some (crc32From data start count crc, s)
      else none := by
  induction count generalizing start crc with
  | zero => rfl
  | succ count ih =>
      rw [Guarded.crc32From, demand_bind, ih, crc32From]
      by_cases hstart : start < size
      · rw [if_pos hstart]
        refine if_congr ?_ rfl rfl
        omega
      · rw [if_neg hstart, if_neg (by omega)]

theorem guarded_crc32 (size : Nat) (data : Buf) (length : Nat) (s : System) :
    Guarded.crc32 size data length s =
      if length ≤ size then some (crc32 data length, s) else none := by
  unfold Guarded.crc32
  rw [Program.bind_apply, guarded_crc32From]
  by_cases hfit : length ≤ size
  · rw [if_pos (by omega), if_pos hfit]
    rfl
  · rw [if_neg (by omega), if_neg hfit]
    rfl

/-- The entries from `j` on that are copied lie in the sector. -/
def EntriesFit (entriesToRead entrySize baseEntry count j : Nat) : Prop :=
  ∀ i, j ≤ i → i < j + count → baseEntry + i < entriesToRead →
    i * entrySize + 128 ≤ 512

theorem guarded_loadEntries (buf : Buf) {entriesToRead : Nat}
    (entrySize base count j : Nat) (partitions : Fin 128 → Entry)
    (hmax : entriesToRead ≤ 128) (s : System) :
    (EntriesFit entriesToRead entrySize base count j →
      Guarded.loadEntries buf entriesToRead entrySize base count j partitions s =
        some (loadEntries buf entriesToRead entrySize base count j partitions, s)) ∧
    (¬ EntriesFit entriesToRead entrySize base count j →
      Guarded.loadEntries buf entriesToRead entrySize base count j partitions s =
        none) := by
  induction count generalizing j partitions with
  | zero =>
      refine ⟨fun _ => rfl, fun hbad => absurd ?_ hbad⟩
      intro i hlow hhigh
      omega
  | succ count ih =>
      rw [Guarded.loadEntries, loadEntries]
      by_cases hstop : base + j ≥ entriesToRead
      · rw [if_pos hstop, if_pos hstop]
        refine ⟨fun _ => rfl, fun hbad => absurd ?_ hbad⟩
        intro i hlow _ hread
        omega
      · have hslot : base + j < maxPartitions := by
          change _ < 128
          omega
        rw [if_neg hstop, if_neg hstop, demand_bind, if_pos hslot, demand_bind]
        by_cases hfits : j * entrySize + 128 ≤ 512
        · have hiff : EntriesFit entriesToRead entrySize base (count + 1) j ↔
              EntriesFit entriesToRead entrySize base count (j + 1) := by
            constructor
            · intro hall i hlow hhigh hread
              exact hall i (by omega) (by omega) hread
            · intro hall i hlow hhigh hread
              rcases Nat.eq_or_lt_of_le hlow with rfl | hnext
              · exact hfits
              · exact hall i hnext (by omega) hread
          rw [if_pos hfits, hiff]
          exact ih _ _
        · rw [if_neg hfits]
          refine ⟨fun hall => absurd ?_ hfits, fun _ => rfl⟩
          exact hall j le_rfl (by omega) (by omega)

/-- What is copied from the first sector of the array lies in that sector. -/
def Header.Strides (header : Header) : Prop :=
  ∀ j < header.perSector, j < header.entriesToRead →
    j * header.partitionEntrySize.toNat + 128 ≤ 512

theorem Header.Strides.entriesFit {header : Header} (h : header.Strides)
    (base : Nat) : EntriesFit header.entriesToRead
      header.partitionEntrySize.toNat base header.perSector 0 := by
  intro j _ hj hread
  exact h j (by omega) (by omega)

theorem Header.strides_iff {header : Header} :
    EntriesFit header.entriesToRead header.partitionEntrySize.toNat
      (0 * header.perSector) header.perSector 0 ↔ header.Strides := by
  constructor
  · intro h j hj hread
    exact h j (Nat.zero_le j) (by omega) (by omega)
  · intro h
    exact h.entriesFit _

/-- With the copies in bounds, the demands change nothing. -/
theorem guarded_loadSectors {header : Header} (hfit : header.Strides)
    (count : Nat) {i : Nat} (hcount : i + count = header.sectorsNeeded)
    (s : System) :
    Guarded.loadSectors header.entriesToRead header.partitionEntrySize.toNat
      header.partitionEntriesLba.toNat count i s =
    loadSectors header.entriesToRead header.partitionEntrySize.toNat
      header.partitionEntriesLba.toNat count i s := by
  induction count generalizing i s with
  | zero => rfl
  | succ count ih =>
      rw [Guarded.loadSectors, loadSectors, Program.bind_apply,
        Program.bind_apply]
      obtain ⟨read, s', hread⟩ := blockReadSector_ends s
        (u64 (header.partitionEntriesLba.toNat + i))
      rw [hread]
      simp only [Option.bind_some]
      cases read with
      | none => rfl
      | some sector =>
          have hpos := header.partitionEntrySize_pos (by omega)
          simp only
          rw [demand_bind, if_pos (by omega),
            Program.bind_of_some (getGpt_apply s')]
          have hentries := (guarded_loadEntries (s'.gpt.sectorBytes sector)
            _ _ _ _ s'.gpt.partitions header.entriesToRead_le s').1
            (hfit.entriesFit (u32 (i * (512 / header.partitionEntrySize.toNat))))
          rw [Header.perSector] at hentries
          rw [Program.bind_of_some hentries,
            Program.bind_of_some (modifyGpt_apply _ s'),
            Program.bind_of_some (modifyGpt_apply _ s')]
          exact ih (by omega) _

/-- If the first sector is read at all, the copies out of it are in bounds. -/
def ArrayFits (s : System) (header : Header) : Prop :=
  0 < header.sectorsNeeded → s.device.faults 0 (header.arrayLba 0) = false →
    header.Strides

theorem guarded_loadArray {s : System} (header : Header)
    (hs : (s.device.sataPresent || s.device.msPresent) = true) :
    (ArrayFits s header → Guarded.loadArray header s = loadArray header s) ∧
    (¬ ArrayFits s header → Guarded.loadArray header s = none) := by
  rw [Header.loadArray_eq, Guarded.loadArray]
  by_cases hfit : header.Strides
  · exact ⟨fun _ => guarded_loadSectors hfit _ (Nat.zero_add _) s,
      fun hbad => absurd (fun _ _ => hfit) hbad⟩
  · cases hneeded : header.sectorsNeeded with
    | zero =>
        refine ⟨fun _ => rfl, fun hbad => absurd ?_ hbad⟩
        intro hpos
        omega
    | succ count =>
        rw [Guarded.loadSectors, loadSectors]
        cases hfault : s.device.faults 0 (header.arrayLba 0) with
        | true =>
            obtain ⟨s', hread, -⟩ := blockReadSector_fails hs hfault
            rw [Header.arrayLba] at hread
            rw [Program.bind_of_some hread, Program.bind_of_some hread]
            refine ⟨fun _ => rfl, fun hbad => absurd ?_ hbad⟩
            intro _ hworks
            rw [hfault] at hworks
            cases hworks
        | false =>
            refine ⟨fun hall => absurd (hall (by omega) hfault) hfit, fun _ => ?_⟩
            have hread := blockReadSector_present _ hs hfault
            rw [Header.arrayLba] at hread
            have hpos := header.partitionEntrySize_pos (by omega)
            rw [Program.bind_of_some hread]
            simp only
            rw [demand_bind, if_pos (by omega),
              Program.bind_of_some (getGpt_apply s.tick), Program.bind_apply]
            have hbase : u32 (0 * (512 / header.partitionEntrySize.toNat)) =
                0 * header.perSector := by simp [u32]
            have hentries := (guarded_loadEntries (s.tick.gpt.sectorBytes
              (s.device.sectors (u64 (header.partitionEntriesLba.toNat + 0))))
              header.partitionEntrySize.toNat (0 * header.perSector) header.perSector 0
              s.tick.gpt.partitions header.entriesToRead_le s.tick).2
              (fun hall => hfit (Header.strides_iff.mp hall))
            rw [hbase]
            exact congrArg (Option.bind · _) hentries

/-- What `gpt_init` makes of the sizes on the disk stays in its buffers. -/
structure InitFits (s : System) : Prop where
  header : (diskHeader s).Recognised → (diskHeader s).headerSize.toNat ≤ 92
  array : (diskHeader s).Recognised → (diskHeader s).Intact s.gpt →
    0 < (diskHeader s).sectorsNeeded →
    s.device.faults 1 ((diskHeader s).arrayLba 0) = false →
    (diskHeader s).Strides

theorem guarded_gptInit (s : System) :
    ((HeaderReadable s → InitFits s) → Guarded.gptInit s = gptInit s) ∧
    (¬ (HeaderReadable s → InitFits s) → Guarded.gptInit s = none) := by
  unfold Guarded.gptInit gptInit
  by_cases hs : (s.device.sataPresent || s.device.msPresent) = true
  swap
  · have hpresent : blockIsPresent s =
        some (s.device.sataPresent || s.device.msPresent, s) := rfl
    rw [Program.bind_of_some hpresent, Program.bind_of_some hpresent,
      if_neg hs, if_neg hs]
    exact ⟨fun _ => rfl, fun hbad => absurd (fun h => absurd h.present hs) hbad⟩
  rw [Program.bind_of_some (blockIsPresent_present hs),
    Program.bind_of_some (blockIsPresent_present hs), if_pos rfl, if_pos rfl]
  cases hfault : s.device.faults 0 1 with
  | true =>
      obtain ⟨s', hread, -⟩ := blockReadSector_fails hs hfault
      rw [Program.bind_of_some hread, Program.bind_of_some hread]
      refine ⟨fun _ => rfl, fun hbad => absurd (fun h => ?_) hbad⟩
      have hworks := h.works
      rw [hfault] at hworks
      cases hworks
  | false =>
      have hread := blockReadSector_present 1 hs hfault
      rw [Program.bind_of_some hread, Program.bind_of_some hread]
      simp only
      rw [Program.bind_of_some (modifyGpt_apply _ s.tick),
        Program.bind_of_some (modifyGpt_apply _ s.tick),
        Program.bind_of_some (getGpt_apply _), Program.bind_of_some (getGpt_apply _)]
      dsimp only
      have hreadable : HeaderReadable s := ⟨hs, hfault⟩
      split_ifs with hsignature hrevision
      · refine ⟨fun _ => rfl, fun hbad => absurd (fun _ => ⟨?_, ?_⟩) hbad⟩
        · exact fun h => absurd h.signature hsignature
        · exact fun h => absurd h.signature hsignature
      · refine ⟨fun _ => rfl, fun hbad => absurd (fun _ => ⟨?_, ?_⟩) hbad⟩
        · exact fun h => absurd h.revision hrevision
        · exact fun h => absurd h.revision hrevision
      have hknown : (diskHeader s).Recognised :=
        ⟨not_not.mp hsignature, not_not.mp hrevision⟩
      rw [Program.bind_of_some (modifyGpt_apply _ _),
        Program.bind_of_some (getGpt_apply _),
        Program.bind_of_some (modifyGpt_apply _ _),
        Program.bind_of_some (getGpt_apply _), Program.bind_apply, guarded_crc32]
      dsimp only
      by_cases hsize : ((Header.ofBytes (s.device.sectors 1).toBuf).withCrc
          0).headerSize.toNat ≤ 92
      swap
      · refine ⟨fun hall => absurd ((hall hreadable).header hknown) hsize,
          fun _ => ?_⟩
        rw [if_neg hsize]
        rfl
      rw [if_pos hsize]
      dsimp only [Option.bind_some]
      split_ifs with hcrc
      · refine ⟨fun _ => rfl, fun hbad => absurd (fun _ => ⟨fun _ => hsize, ?_⟩) hbad⟩
        exact fun _ hintact => absurd hintact hcrc
      have hintact : (diskHeader s).Intact s.gpt := not_not.mp hcrc
      rw [Program.bind_of_some (modifyGpt_apply _ _),
        Program.bind_of_some (modifyGpt_apply _ _)]
      dsimp only
      rw [Header.withCrc_withCrc]
      have harray := guarded_loadArray (diskHeader s)
        (s := { s.tick with gpt := { s.gpt with header := diskHeader s } }) hs
      constructor
      · intro hall
        have hfits : ArrayFits s.tick (diskHeader s) :=
          (hall hreadable).array hknown hintact
        rw [Program.bind_apply, Program.bind_apply]
        exact congrArg (Option.bind · _) (harray.1 hfits)
      · intro hbad
        have hfits : ¬ ArrayFits s.tick (diskHeader s) := fun hfits =>
          hbad fun _ => ⟨fun _ => hsize, fun _ _ => hfits⟩
        rw [Program.bind_apply]
        exact congrArg (Option.bind · _) (harray.2 hfits)

/--
The guarded run gets through exactly on the disks that are harmless, and it is
then the run of `gpt_init` itself.
-/
theorem gptInit_in_bounds_iff (s : System) :
    (∃ r, Guarded.gptInit s = some r ∧ gptInit s = some r) ↔
      (HeaderReadable s → InitFits s) := by
  obtain ⟨status, s', hrun, -⟩ := gptInit_run s
  obtain ⟨hsame, hnone⟩ := guarded_gptInit s
  constructor
  · rintro ⟨r, hguarded, -⟩
    by_contra hbad
    rw [hnone hbad] at hguarded
    cases hguarded
  · intro hfits
    exact ⟨_, (hsame hfits).trans hrun, hrun⟩

def longHeader : Header :=
  { newHeader 100 (fun _ => 0) with headerSize := 93 }

/-- The checksum of such a header takes in a byte behind it. -/
theorem gptInit_reads_past_header :
    Guarded.gptInit (System.startup fun _ => Sector.ofBuf longHeader.toBytes) =
      none := by
  have hheader : diskHeader
      (System.startup fun _ => Sector.ofBuf longHeader.toBytes) = longHeader := by
    apply Header.ofBytes_of_agree
    intro k hk
    exact Sector.toBuf_ofBuf longHeader.toBytes (by omega)
  apply (guarded_gptInit _).2
  intro hall
  have hsize := (hall ⟨rfl, rfl⟩).header (by
    rw [hheader]
    exact ⟨rfl, rfl⟩)
  rw [hheader] at hsize
  exact absurd hsize (by decide)

end EntropyOS.Gpt
