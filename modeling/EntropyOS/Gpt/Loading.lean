import EntropyOS.Gpt.Failing
import EntropyOS.Gpt.Reload

/-!
# Loading any table

`gpt_init` over a disk with any contents, any faults and any memory.  It copies
the header into place before it checks it, and the entries sector by sector, so
a failure leaves what has been copied by then.
-/

namespace EntropyOS.Gpt

open EntropyOS.Foundation

/-! ## The geometry of an array -/

namespace Header

variable (header : Header)

/-- How many entries `gpt_init` keeps. -/
def entriesToRead : Nat :=
  if header.numPartitionEntries.toNat > maxPartitions then maxPartitions
  else header.numPartitionEntries.toNat

def sectorsNeeded : Nat :=
  u32 (header.entriesToRead * header.partitionEntrySize.toNat + 511) / 512

def perSector : Nat := 512 / header.partitionEntrySize.toNat

def arrayLba (i : Nat) : Nat := u64 (header.partitionEntriesLba.toNat + i)

theorem loadArray_eq : loadArray header = loadSectors header.entriesToRead
    header.partitionEntrySize.toNat header.partitionEntriesLba.toNat
    header.sectorsNeeded 0 := rfl

theorem entriesToRead_le : header.entriesToRead ≤ 128 := by
  unfold entriesToRead
  change (if header.numPartitionEntries.toNat > 128 then 128 else _) ≤ 128
  split <;> omega

/-- With entries of size 0 there is no sector to read, and nothing to divide. -/
theorem partitionEntrySize_pos (h : 0 < header.sectorsNeeded) :
    0 < header.partitionEntrySize.toNat := by
  by_contra hzero
  have hsize : header.partitionEntrySize.toNat = 0 := by omega
  simp [sectorsNeeded, hsize, u32] at h

theorem base_lt {i : Nat} (hi : i < header.sectorsNeeded) :
    i * header.perSector < 4294967296 := by
  have hneeded : header.sectorsNeeded ≤ 8388607 := by
    unfold sectorsNeeded u32
    omega
  have hper : header.perSector ≤ 512 := Nat.div_le_self _ _
  calc i * header.perSector ≤ 8388606 * 512 :=
        Nat.mul_le_mul (by omega) hper
    _ < 4294967296 := by decide

end Header

namespace Statics

variable (g : Statics) (disk : Nat → Sector) (header : Header)

/-- Entry `k` of the array, as far as its sector and the bytes behind it go. -/
def arrayEntry (k : Nat) : Entry := Entry.ofBytes fun b =>
  g.sectorBytes (disk (header.arrayLba (k / header.perSector)))
    (k % header.perSector * header.partitionEntrySize.toNat + b)

/-- The partitions once the first `i` sectors of the array are in. -/
def loaded (i : Nat) : Fin 128 → Entry := fun k =>
  if (k : Nat) < i * header.perSector ∧ (k : Nat) < header.entriesToRead then
    g.arrayEntry disk header k
  else g.partitions k

@[simp] theorem loaded_zero : g.loaded disk header 0 = g.partitions := by
  funext k
  simp [loaded]

end Statics

theorem Statics.loaded_succ (g : Statics) (disk : Nat → Sector)
    (header : Header) (i : Nat) :
    loadEntries (g.sectorBytes (disk (header.arrayLba i))) header.entriesToRead
      header.partitionEntrySize.toNat (i * header.perSector) header.perSector 0
      (g.loaded disk header i) = g.loaded disk header (i + 1) := by
  funext k
  rw [loadEntries_eq _ _ header.entriesToRead_le]
  simp only [Nat.add_zero]
  by_cases hhere : i * header.perSector ≤ (k : Nat) ∧
      (k : Nat) < i * header.perSector + header.perSector ∧
      (k : Nat) < header.entriesToRead
  · obtain ⟨hlow, hhigh, hread⟩ := hhere
    have hdiv : (k : Nat) / header.perSector = i := by
      apply Nat.div_eq_of_lt_le hlow
      rw [Nat.succ_mul]
      exact hhigh
    have hmod : (k : Nat) % header.perSector = k - i * header.perSector := by
      have hsplit := Nat.div_add_mod (k : Nat) header.perSector
      rw [hdiv, Nat.mul_comm] at hsplit
      omega
    rw [if_pos ⟨hlow, hhigh, hread⟩, Statics.loaded, if_pos,
      Statics.arrayEntry, hdiv, hmod]
    rw [Nat.succ_mul]
    exact ⟨hhigh, hread⟩
  · rw [if_neg hhere, Statics.loaded, Statics.loaded]
    refine if_congr ?_ rfl rfl
    rw [Nat.succ_mul]
    omega

/-! ## Reading the array -/

theorem blockReadSector_fails {s : System} {lba : Nat}
    (hs : (s.device.sataPresent || s.device.msPresent) = true)
    (hfault : s.device.faults 0 lba = true) :
    ∃ s', blockReadSector lba s = some (none, s') ∧ s'.gpt = s.gpt := by
  unfold blockReadSector
  rw [Program.get_bind,
    if_pos hs, Program.bind_of_some (transferFails_apply lba), hfault, if_pos rfl]
  cases s.device.sataPresent with
  | false => exact ⟨_, rfl, rfl⟩
  | true => exact ⟨_, rfl, rfl⟩

/-- The first sector of the array that cannot be read, after the header. -/
structure ArrayBreaks (s : System) (header : Header) (n : Nat) : Prop where
  lt : n < header.sectorsNeeded
  before : ∀ j < n, s.device.faults (1 + j) (header.arrayLba j) = false
  fails : s.device.faults (1 + n) (header.arrayLba n) = true

/-- The sectors are read up to the end or up to the first that fails. -/
theorem loadSectors_run (header : Header) (g : Statics) (count : Nat) {i : Nat}
    (hcount : i + count = header.sectorsNeeded) {s : System}
    (hs : (s.device.sataPresent || s.device.msPresent) = true)
    (hgpt : s.gpt =
      { g with partitions := g.loaded s.device.sectors header i }) :
    ∃ n s', n ≤ count ∧
      loadSectors header.entriesToRead header.partitionEntrySize.toNat
        header.partitionEntriesLba.toNat count i s =
          some (if n = count then 0 else -1, s') ∧
      s'.gpt = { g with partitions := g.loaded s.device.sectors header (i + n) } ∧
      (∀ j < n, s.device.faults j (header.arrayLba (i + j)) = false) ∧
      (n ≠ count → s.device.faults n (header.arrayLba (i + n)) = true) := by
  induction count generalizing i s with
  | zero => exact ⟨0, s, le_rfl, rfl, hgpt, by simp, by simp⟩
  | succ count ih =>
      rw [loadSectors]
      change ∃ n s', _ ∧ ((blockReadSector (header.arrayLba i) >>= _) s = _) ∧ _
      cases hfault : s.device.faults 0 (header.arrayLba i) with
      | true =>
          obtain ⟨s', hread, hsame⟩ := blockReadSector_fails hs hfault
          rw [Program.bind_of_some hread]
          exact ⟨0, s', Nat.zero_le _, rfl, hsame.trans hgpt, by simp,
            fun _ => hfault⟩
      | false =>
          rw [Program.bind_of_some (blockReadSector_present _ hs hfault)]
          simp only
          rw [Program.bind_of_some (modifyGpt_apply _ s.tick)]
          have hbase : u32 (i * (512 / header.partitionEntrySize.toNat)) =
              i * header.perSector :=
            Nat.mod_eq_of_lt (header.base_lt (by omega))
          obtain ⟨n, s', hn, hrun, hloaded, hbefore, hfails⟩ := ih (i := i + 1)
            (s := { s.tick with gpt := { g with
              partitions := g.loaded s.device.sectors header (i + 1) } })
            (by omega) hs rfl
          refine ⟨n + 1, s', by omega, ?_, ?_, ?_, ?_⟩
          · have htick : s.tick.gpt = _ := hgpt
            have hstatus : (if n + 1 = count + 1 then (0 : Int) else -1) =
                if n = count then 0 else -1 := by simp
            rw [hstatus, ← hrun, hbase, ← g.loaded_succ s.device.sectors header i,
              htick]
            rfl
          · rw [hloaded]
            congr 2
            omega
          · intro j hj
            cases j with
            | zero => exact hfault
            | succ j =>
                have hnext := hbefore j (by omega)
                rwa [show i + 1 + j = i + (j + 1) by omega] at hnext
          · intro hne
            have hnext := hfails (by omega)
            rwa [show i + 1 + n = i + (n + 1) by omega] at hnext

/-! ## The six ways to fail -/

def diskHeader (s : System) : Header := .ofBytes (s.device.sectors 1).toBuf

structure HeaderReadable (s : System) : Prop where
  present : (s.device.sataPresent || s.device.msPresent) = true
  works : s.device.faults 0 1 = false

structure Header.Recognised (header : Header) : Prop where
  signature : header.signature = signatureBytes
  revision : header.revision = gptRevision

/--
The checksum is that of the `headerSize` bytes from the header on, which over
92 bytes are bytes behind the header.
-/
def Header.Intact (header : Header) (g : Statics) : Prop :=
  header.headerCrc32 =
    crc32 { g with header := header.withCrc 0 }.headerBytes
      header.headerSize.toNat

/-- What `gpt_init` returns, and what it leaves in memory. -/
inductive Loads (s : System) : Int → Statics → Prop
  | unread : ¬ HeaderReadable s → Loads s (-1) s.gpt
  | foreign : HeaderReadable s → ¬ (diskHeader s).Recognised →
      Loads s (-1) { s.gpt with header := diskHeader s }
  | damaged : HeaderReadable s → (diskHeader s).Recognised →
      ¬ (diskHeader s).Intact s.gpt →
      Loads s (-1) { s.gpt with header := (diskHeader s).withCrc 0 }
  | broken {n : Nat} : HeaderReadable s → (diskHeader s).Recognised →
      (diskHeader s).Intact s.gpt → ArrayBreaks s (diskHeader s) n →
      Loads s (-1) { s.gpt with
        header := diskHeader s
        partitions := s.gpt.loaded s.device.sectors (diskHeader s) n }
  | complete : HeaderReadable s → (diskHeader s).Recognised →
      (diskHeader s).Intact s.gpt →
      (∀ n, ¬ ArrayBreaks s (diskHeader s) n) →
      Loads s 0 { s.gpt with
        header := diskHeader s
        partitions := s.gpt.loaded s.device.sectors (diskHeader s)
          (diskHeader s).sectorsNeeded
        initialized := true }

theorem Header.withCrc_withCrc (header : Header) (crc : UInt32) :
    (header.withCrc crc).withCrc header.headerCrc32 = header := by
  cases header
  rfl

theorem ArrayBreaks.unique {s : System} {header : Header} {n n' : Nat}
    (h : ArrayBreaks s header n) (h' : ArrayBreaks s header n') : n = n' := by
  rcases Nat.lt_trichotomy n n' with hlt | heq | hgt
  · simpa [h'.before n hlt] using h.fails
  · exact heq
  · simpa [h.before n' hgt] using h'.fails

theorem loadArray_run {s : System} (header : Header) {g : Statics}
    (hs : (s.device.sataPresent || s.device.msPresent) = true)
    (hgpt : s.gpt = g) :
    ∃ n s', n ≤ header.sectorsNeeded ∧ loadArray header s =
        some (if n = header.sectorsNeeded then 0 else -1, s') ∧
      s'.gpt = { g with partitions := g.loaded s.device.sectors header n } ∧
      (∀ j < n, s.device.faults j (header.arrayLba j) = false) ∧
      (n ≠ header.sectorsNeeded →
        s.device.faults n (header.arrayLba n) = true) := by
  obtain ⟨n, s', hn, hrun, hloaded, hbefore, hfails⟩ := loadSectors_run
    header g header.sectorsNeeded (Nat.zero_add _) hs
    (by rw [Statics.loaded_zero, hgpt])
  simp only [Nat.zero_add] at hloaded hbefore hfails
  exact ⟨n, s', hn, hrun, hloaded, hbefore, hfails⟩

theorem gptInit_run (s : System) :
    ∃ status s', gptInit s = some (status, s') ∧ Loads s status s'.gpt := by
  unfold gptInit
  by_cases hs : (s.device.sataPresent || s.device.msPresent) = true
  swap
  · have hpresent : blockIsPresent s =
        some (s.device.sataPresent || s.device.msPresent, s) := rfl
    rw [Program.bind_of_some hpresent, if_neg hs]
    exact ⟨_, _, rfl, .unread fun h => hs h.present⟩
  rw [Program.bind_of_some (blockIsPresent_present hs), if_pos rfl]
  cases hfault : s.device.faults 0 1 with
  | true =>
      obtain ⟨s', hread, hsame⟩ := blockReadSector_fails hs hfault
      rw [Program.bind_of_some hread]
      refine ⟨-1, s', rfl, ?_⟩
      rw [hsame]
      refine .unread fun h => ?_
      rw [h.works] at hfault
      cases hfault
  | false =>
      have hreadable : HeaderReadable s := ⟨hs, hfault⟩
      rw [Program.bind_of_some (blockReadSector_present 1 hs hfault)]
      simp only
      rw [Program.bind_of_some (modifyGpt_apply _ s.tick),
        Program.bind_of_some (getGpt_apply _)]
      change ∃ status s', (if (diskHeader s).signature ≠ signatureBytes then _
        else _ : Program System Int) _ = _ ∧ _
      by_cases hsignature : (diskHeader s).signature = signatureBytes
      swap
      · rw [if_pos hsignature]
        exact ⟨_, _, rfl, .foreign hreadable fun h => hsignature h.signature⟩
      rw [if_neg (not_not.mpr hsignature)]
      change ∃ status s', (if (diskHeader s).revision ≠ gptRevision then _
        else _ : Program System Int) _ = _ ∧ _
      by_cases hrevision : (diskHeader s).revision = gptRevision
      swap
      · rw [if_pos hrevision]
        exact ⟨_, _, rfl, .foreign hreadable fun h => hrevision h.revision⟩
      rw [if_neg (not_not.mpr hrevision),
        Program.bind_of_some (modifyGpt_apply _ _),
        Program.bind_of_some (getGpt_apply _)]
      have hknown : (diskHeader s).Recognised := ⟨hsignature, hrevision⟩
      dsimp only
      split_ifs with hcrc
      · exact ⟨_, _, rfl, .damaged hreadable hknown hcrc⟩
      have hintact : (diskHeader s).Intact s.gpt := not_not.mp hcrc
      rw [Program.bind_of_some (modifyGpt_apply _ _)]
      dsimp only
      rw [Header.withCrc_withCrc]
      change ∃ status s', (loadArray (diskHeader s) >>= _)
        { s.tick with gpt := { s.gpt with header := diskHeader s } } = _ ∧ _
      obtain ⟨n, s', hn, hrun, hloaded, hbefore, hfails⟩ := loadArray_run
        (s := { s.tick with gpt := { s.gpt with header := diskHeader s } })
        (diskHeader s) hs rfl
      rw [Program.bind_of_some hrun]
      have hafter : ∀ j, s.tick.device.faults j = s.device.faults (1 + j) := by
        intro j
        rw [Nat.add_comm]
        rfl
      by_cases hall : n = (diskHeader s).sectorsNeeded
      · rw [if_pos hall, if_neg (by decide),
          Program.bind_of_some (modifyGpt_apply _ s')]
        refine ⟨0, _, rfl, ?_⟩
        rw [hloaded, hall]
        refine .complete hreadable hknown hintact fun n' hbreaks => ?_
        have hworks := hbefore n' (hall ▸ hbreaks.lt)
        rw [hafter, hbreaks.fails] at hworks
        cases hworks
      · rw [if_neg hall, if_pos (by decide)]
        refine ⟨-1, s', rfl, ?_⟩
        rw [hloaded]
        refine .broken hreadable hknown hintact
          ⟨by omega, fun j hj => ?_, ?_⟩
        · rw [← hafter]
          exact hbefore j hj
        · rw [← hafter]
          exact hfails hall

/-! ## What a failure leaves -/

/-- The header, the partitions and the flag are as before. -/
structure MemoryKept (g g' : Statics) : Prop where
  header : g'.header = g.header
  partitions : g'.partitions = g.partitions
  initialized : g'.initialized = g.initialized

/-- Whatever is copied before a check or a transfer fails was there already. -/
structure InitKeeps (s : System) : Prop where
  foreign : ¬ (diskHeader s).Recognised → diskHeader s = s.gpt.header
  damaged : (diskHeader s).Recognised → ¬ (diskHeader s).Intact s.gpt →
    (diskHeader s).withCrc 0 = s.gpt.header
  broken : (diskHeader s).Recognised → (diskHeader s).Intact s.gpt →
    ∀ n, ArrayBreaks s (diskHeader s) n → diskHeader s = s.gpt.header ∧
      ∀ k : Fin 128, (k : Nat) < n * (diskHeader s).perSector →
        (k : Nat) < (diskHeader s).entriesToRead →
        s.gpt.arrayEntry s.device.sectors (diskHeader s) k = s.gpt.partitions k

theorem Statics.loaded_eq_iff {g : Statics} {disk : Nat → Sector}
    {header : Header} {n : Nat} : g.loaded disk header n = g.partitions ↔
      ∀ k : Fin 128, (k : Nat) < n * header.perSector →
        (k : Nat) < header.entriesToRead →
        g.arrayEntry disk header k = g.partitions k := by
  constructor
  · intro h k hk hread
    rw [← congrFun h k, Statics.loaded, if_pos ⟨hk, hread⟩]
  · intro h
    funext k
    rw [Statics.loaded]
    split
    · next hk => exact h k hk.1 hk.2
    · rfl

/--
A failed `gpt_init` leaves the table as it was exactly where it fails before
the header is copied, or where it copies what is there.
-/
theorem failed_init_keeps_memory_iff (s : System) :
    ∃ status s', gptInit s = some (status, s') ∧
      ((status = -1 → MemoryKept s.gpt s'.gpt) ↔
        (HeaderReadable s → InitKeeps s)) := by
  obtain ⟨status, s', hrun, hloads⟩ := gptInit_run s
  refine ⟨status, s', hrun, ?_⟩
  generalize hafter : s'.gpt = g at hloads
  cases hloads with
  | unread hbad =>
      exact ⟨fun _ hgood => absurd hgood hbad, fun _ _ => ⟨rfl, rfl, rfl⟩⟩
  | foreign hgood hunknown =>
      constructor
      · intro hkept _
        exact ⟨fun _ => (hkept rfl).header, fun h => absurd h hunknown,
          fun h => absurd h hunknown⟩
      · intro hkeeps _
        exact ⟨(hkeeps hgood).foreign hunknown, rfl, rfl⟩
  | damaged hgood hknown hcrc =>
      constructor
      · intro hkept _
        exact ⟨fun h => absurd hknown h, fun _ _ => (hkept rfl).header,
          fun _ h => absurd h hcrc⟩
      · intro hkeeps _
        exact ⟨(hkeeps hgood).damaged hknown hcrc, rfl, rfl⟩
  | @broken n hgood hknown hintact hbreaks =>
      constructor
      · intro hkept _
        refine ⟨fun h => absurd hknown h, fun _ h => absurd hintact h,
          fun _ _ n' hbreaks' => ⟨(hkept rfl).header, ?_⟩⟩
        rw [hbreaks'.unique hbreaks]
        exact Statics.loaded_eq_iff.mp (hkept rfl).partitions
      · intro hkeeps _
        obtain ⟨hheader, hentries⟩ := (hkeeps hgood).broken hknown hintact n hbreaks
        exact ⟨hheader, Statics.loaded_eq_iff.mpr hentries, rfl⟩
  | complete hgood hknown hintact hall =>
      refine ⟨fun _ _ => ⟨fun h => absurd hknown h, fun _ h => absurd hintact h,
        fun _ _ n hbreaks => absurd hbreaks (hall n)⟩, fun _ hstatus => ?_⟩
      exact absurd hstatus (by decide)

/-- A table in use takes on the header of a disk that has none. -/
theorem failed_init_replaces_header :
    ∃ created s',
      gptCreateTable 100 none (System.startup fun _ => Sector.zero) =
        some (0, created) ∧
      created.gpt.initialized = true ∧
      gptInit (created.put 1 Sector.zero) = some (-1, s') ∧
      ¬ MemoryKept created.gpt s'.gpt := by
  obtain ⟨created, hcreate, hcreated⟩ := exists_create
    (System.startup_faultFree fun _ => Sector.zero) 100 none
  have hsignature : created.gpt.header.signature = signatureBytes := by
    rw [hcreated.2.1, Image.create_header]
    rfl
  have hinit : created.gpt.initialized = true := by
    rw [hcreated.2.1]
    rfl
  have hbytes : ((created.put 1 Sector.zero).device.sectors 1).toBuf =
      fun _ => 0 := by
    rw [System.put_sectors, Function.update_self]
    funext k
    simp [Sector.toBuf, Sector.zero]
  have hzero : diskHeader (created.put 1 Sector.zero) =
      Header.ofBytes fun _ => 0 := congrArg Header.ofBytes hbytes
  have hunknown : ¬ (diskHeader (created.put 1 Sector.zero)).Recognised := by
    intro h
    have hfirst := congrFun h.signature 0
    rw [hzero] at hfirst
    exact absurd hfirst (by decide)
  obtain ⟨status, s', hrun, hloads⟩ := gptInit_run (created.put 1 Sector.zero)
  have hgood : HeaderReadable (created.put 1 Sector.zero) :=
    ⟨hcreated.1.present, by rw [System.put_faults, hcreated.1.faults]⟩
  generalize hafter : s'.gpt = g at hloads
  cases hloads with
  | unread hbad => exact absurd hgood hbad
  | damaged _ hknown => exact absurd hknown hunknown
  | broken _ hknown => exact absurd hknown hunknown
  | complete _ hknown => exact absurd hknown hunknown
  | foreign _ _ =>
      refine ⟨created, s', hcreate, hinit, hrun, fun hkept => ?_⟩
      have hheader := hkept.header
      rw [hafter] at hheader
      change diskHeader (created.put 1 Sector.zero) = _ at hheader
      have hfirst := congrFun hsignature 0
      rw [← hheader, hzero] at hfirst
      exact absurd hfirst (by decide)

end EntropyOS.Gpt
