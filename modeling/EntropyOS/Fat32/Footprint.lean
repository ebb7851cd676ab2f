import EntropyOS.Fat32.Format

/-!
# Where a call writes

The device keeps the address of every write.  A program is confined to an
effect, such as to write no sector of the partition but those it is allowed to,
when it has no other effect whatever happens on the way and whether or not the
writes succeed.
-/

namespace EntropyOS.Fat32

open EntropyOS.Foundation

/-- Nothing is written and the volume stays in its place. -/
structure Still (s s' : System) : Prop where
  fs : s'.fat32.fs = s.fat32.fs
  offset : s'.fat32.partitionOffset = s.fat32.partitionOffset
  sectors : s'.device.sectors = s.device.sectors
  writes : s'.device.writes = s.device.writes
  faultFree : s.device.FaultFree → s'.device.FaultFree

instance : Std.Refl Still := ⟨fun _ => ⟨rfl, rfl, rfl, rfl, id⟩⟩

instance : IsTrans System Still :=
  ⟨fun _ _ _ h h' => ⟨h'.fs.trans h.fs, h'.offset.trans h.offset,
    h'.sectors.trans h.sectors, h'.writes.trans h.writes,
    fun hs => h'.faultFree (h.faultFree hs)⟩⟩

/-- What a program may do to the machine, besides leaving it still. -/
class Effect (R : System → System → Prop) : Prop extends
    Std.Refl R, IsTrans System R where
  fs {s s' : System} : R s s' → s'.fat32.fs = s.fat32.fs
  still {s s' : System} : Still s s' → R s s'

/-- On a volume with this geometry the program has no other effect. -/
def Confined {α : Type} (fs : Fs) (R : System → System → Prop)
    (program : Program System α) : Prop :=
  ∀ s a s', s.fat32.fs = fs → program s = some (a, s') → R s s'

section Rules

variable {α β : Type} {fs : Fs} {R : System → System → Prop} [Effect R]

theorem Confined.pure (a : α) : Confined fs R (Pure.pure a : Program System α) := by
  intro s b s' _ h
  cases h
  exact Std.Refl.refl s

theorem Confined.bind_returned {program : Program System α}
    {next : α → Program System β} (first : Confined fs R program)
    (second : ∀ a, (∃ s s', s.fat32.fs = fs ∧ program s = some (a, s')) →
      Confined fs R (next a)) : Confined fs R (program >>= next) := by
  intro s b s' hs h
  obtain ⟨a, middle, hfirst, hsecond⟩ := Program.exists_of_bind h
  have hmiddle := first s a middle hs hfirst
  exact IsTrans.trans _ _ _ hmiddle (second a ⟨s, middle, hs, hfirst⟩ middle b s'
    ((Effect.fs hmiddle).trans hs) hsecond)

theorem Confined.bind {program : Program System α} {next : α → Program System β}
    (first : Confined fs R program) (second : ∀ a, Confined fs R (next a)) :
    Confined fs R (program >>= next) :=
  first.bind_returned fun a _ => second a

omit [Effect R] in
theorem Confined.ite {c : Prop} [Decidable c] {yes no : Program System α}
    (hyes : c → Confined fs R yes) (hno : ¬ c → Confined fs R no) :
    Confined fs R (if c then yes else no) := by
  split
  · next hc => exact hyes hc
  · next hc => exact hno hc

theorem Confined.of_still {program : Program System α} (h : Within Still program) :
    Confined fs R program :=
  fun s a s' _ hrun => Effect.still (h s a s' hrun)

omit [Effect R] in
theorem Confined.getFs {next : Fs → Program System α}
    (h : Confined fs R (next fs)) : Confined fs R (Fat32.getFs >>= next) := by
  intro s a s' hs hrun
  rw [Program.bind_of_some (getFs_apply s), hs] at hrun
  exact h s a s' hs hrun

theorem text_still (message : String) : Within Still (EntropyOS.text message) :=
  Within.modify fun _ => ⟨rfl, rfl, rfl, rfl, fun h => ⟨h.present, h.faults⟩⟩

theorem Confined.text (message : String) :
    Confined fs R (EntropyOS.text message) :=
  Confined.of_still (text_still message)

theorem Confined.report (message : String) (a : α) :
    Confined fs R (do
      EntropyOS.text message
      return a) :=
  Confined.bind (Confined.text _) fun _ => Confined.pure _

theorem Confined.getFat32 : Confined fs R Fat32.getFat32 :=
  Confined.of_still (Within.bind Within.get fun _ => Within.pure _)

theorem Confined.modifyFat32 {f : Statics → Statics}
    (hfs : ∀ st, (f st).fs = st.fs)
    (hoffset : ∀ st, (f st).partitionOffset = st.partitionOffset) :
    Confined fs R (Fat32.modifyFat32 f) :=
  Confined.of_still (Within.modify fun _ => ⟨hfs _, hoffset _, rfl, rfl, id⟩)

theorem Confined.blockIsPresent : Confined fs R EntropyOS.blockIsPresent :=
  Confined.of_still (Within.bind Within.get fun _ => Within.pure _)

theorem transferFails_still (lba : Nat) : Within Still (transferFails lba) := by
  intro s fails s' h
  cases h
  refine ⟨rfl, rfl, rfl, rfl, fun hs => ⟨hs.present, ?_⟩⟩
  funext n
  exact congrFun hs.faults (n + 1)

theorem readSector_still (lba : Nat) : Within Still (Fat32.readSector lba) := by
  refine Within.bind (Within.bind Within.get fun _ => Within.pure _) fun st => ?_
  refine Within.bind Within.get fun s => Within.ite ?_ (Within.pure _)
  refine Within.bind (transferFails_still _) fun fails => Within.ite ?_ (Within.pure _)
  refine Within.ite (Within.pure _) ?_
  exact Within.bind (text_still _) fun _ => Within.pure _

theorem Confined.readSector (lba : Nat) : Confined fs R (Fat32.readSector lba) :=
  Confined.of_still (readSector_still lba)

theorem Confined.flushIfSata (warning : String) :
    Confined fs R (EntropyOS.flushIfSata warning) := by
  have hone : Within Still sataFlushCache := by
    refine Within.bind Within.get fun s => Within.ite ?_ (Within.pure _)
    exact Within.bind (transferFails_still _) fun fails =>
      Within.ite (Within.pure _) (Within.pure _)
  have hall : ∀ count, Within Still (flushCache warning count) := by
    intro count
    induction count with
    | zero => exact Within.pure ()
    | succ count ih =>
        refine Within.bind hone fun status => Within.ite ?_ ih
        exact Within.bind (text_still _) fun _ => ih
  exact Confined.of_still (Within.bind Within.get fun s =>
    Within.ite (hall 5) (Within.pure ()))

end Rules

/-! ## Allowed sectors -/

/-- Between the two states only sectors that `inside` allows were written. -/
structure Footprint (inside : Nat → Prop) (s s' : System) : Prop where
  fs : s'.fat32.fs = s.fat32.fs
  offset : s'.fat32.partitionOffset = s.fat32.partitionOffset
  writes : ∃ new, s'.device.writes = new ++ s.device.writes ∧
    ∀ w ∈ new, ∃ lba, inside lba ∧ w = u64 (s.fat32.partitionOffset + lba)

theorem Footprint.refl (inside : Nat → Prop) (s : System) :
    Footprint inside s s := ⟨rfl, rfl, [], rfl, by simp⟩

theorem Footprint.trans {inside : Nat → Prop} {s s' s'' : System}
    (h : Footprint inside s s') (h' : Footprint inside s' s'') :
    Footprint inside s s'' := by
  obtain ⟨new, hnew, hinside⟩ := h.writes
  obtain ⟨new', hnew', hinside'⟩ := h'.writes
  refine ⟨h'.fs.trans h.fs, h'.offset.trans h.offset, new' ++ new, ?_, ?_⟩
  · rw [hnew', hnew, List.append_assoc]
  · intro w hw
    rcases List.mem_append.mp hw with hlate | hearly
    · rw [← h.offset]
      exact hinside' w hlate
    · exact hinside w hearly

instance (inside : Nat → Prop) : Effect (Footprint inside) where
  refl := Footprint.refl inside
  trans _ _ _ := Footprint.trans
  fs := Footprint.fs
  still h := ⟨h.fs, h.offset, [], h.writes, by simp⟩

theorem Footprint.writeSector {fs : Fs} {inside : Nat → Prop} {lba : Nat}
    (sector : Sector) (h : inside lba) :
    Confined fs (Footprint inside) (Fat32.writeSector lba sector) := by
  intro s a s' _ hrun
  obtain ⟨st, middle, hget, hwrite⟩ := Program.exists_of_bind hrun
  cases hget
  by_cases hs : (s.device.sataPresent || s.device.msPresent) = true
  · rw [blockWriteSector_present _ hs] at hwrite
    have hone : ∀ w ∈ [u64 (s.fat32.partitionOffset + lba)],
        ∃ lba, inside lba ∧ w = u64 (s.fat32.partitionOffset + lba) := by
      intro w hw
      exact ⟨lba, h, List.mem_singleton.mp hw⟩
    split at hwrite
    · cases hwrite
      exact ⟨rfl, rfl, _, rfl, hone⟩
    · cases hwrite
      exact ⟨rfl, rfl, _, rfl, hone⟩
  · unfold blockWriteSector at hwrite
    rw [Program.get_bind, if_neg hs] at hwrite
    cases hwrite
    exact Footprint.refl inside s

/-! ## The sectors of a new volume -/

theorem clearSectors_confined {fs : Fs} {inside : Nat → Prop} (message : String)
    (lba count : Nat) {j : Nat}
    (h : ∀ k, j ≤ k → k < j + count → inside (lba + k)) :
    Confined fs (Footprint inside) (clearSectors message lba count j) := by
  induction count generalizing j with
  | zero => exact Confined.pure 0
  | succ count ih =>
      refine Confined.bind (Footprint.writeSector _ (h j le_rfl (by omega)))
        fun status => Confined.ite (fun _ => ?_) fun _ => ?_
      · exact Confined.bind (Confined.text _) fun _ => Confined.pure _
      · exact ih fun k hlow hhigh => h k (by omega) (by omega)

theorem writeFats_confined {fs : Fs} {total fatSize : Nat} (count : Nat)
    {i : Nat} (buffer : Sector) (hpos : 1 ≤ fatSize)
    (hfit : 32 + (i + count) * fatSize ≤ total) (htotal : total < 4294967296) :
    Confined fs (Footprint (· < total)) (writeFats fatSize count i buffer) := by
  induction count generalizing i buffer with
  | zero => exact Confined.pure 0
  | succ count ih =>
      have hnext : i + (count + 1) = i + 1 + count := by omega
      have hcopy : 32 + i * fatSize + fatSize ≤ total := by
        have hrest : i * fatSize + fatSize ≤ (i + (count + 1)) * fatSize := by
          rw [← Nat.succ_mul]
          exact Nat.mul_le_mul_right _ (by omega)
        omega
      have hstart : u32 (32 + i * fatSize) = 32 + i * fatSize :=
        u32_of_lt (by omega)
      rw [writeFats]
      simp only [hstart]
      refine Confined.bind (Footprint.writeSector _ (by omega)) fun status =>
        Confined.ite (fun _ => Confined.bind (Confined.text _) fun _ =>
          Confined.pure _) fun _ => ?_
      refine Confined.bind (clearSectors_confined _ _ _ fun k hlow hhigh => ?_)
        fun status => Confined.ite (fun _ => Confined.pure _) fun _ => ?_
      · omega
      · exact ih _ (by rw [← hnext]; exact hfit)

theorem format_confined {fs : Fs} {total : UInt64} (label : Option (List UInt8))
    (h : Fits total.toNat) :
    Confined fs (Footprint (· < total.toNat)) (format total label) := by
  have hlt := h.lt
  have hclusters := h.clusters_le
  have hroot := h.root
  have hlba : u32 (32 + 2 * formatFatSize total.toNat) =
      32 + 2 * formatFatSize total.toNat := u32_of_lt (by omega)
  refine Confined.bind Confined.blockIsPresent fun present =>
    Confined.ite (fun _ => ?_) fun _ => Confined.report _ _
  refine Confined.bind (Confined.text _) fun _ => ?_
  rw [u32_of_lt hlt]
  refine Confined.bind (Footprint.writeSector _ (by omega)) fun _ =>
    Confined.ite (fun _ => Confined.report _ _) fun _ => ?_
  refine Confined.bind (Footprint.writeSector _ (by omega)) fun _ =>
    Confined.ite (fun _ => Confined.report _ _) fun _ => ?_
  refine Confined.bind (Footprint.writeSector _ (by omega)) fun _ =>
    Confined.ite (fun _ => Confined.report _ _) fun _ => ?_
  refine Confined.bind (Footprint.writeSector _ (by omega)) fun _ => ?_
  refine Confined.bind (writeFats_confined 2 _ h.fatSize_pos (by omega) hlt)
    fun _ => Confined.ite (fun _ => Confined.pure _) fun _ => ?_
  rw [hlba]
  refine Confined.bind (clearSectors_confined _ _ _ fun k _ hk => by omega)
    fun _ => Confined.ite (fun _ => Confined.pure _) fun _ => ?_
  refine Confined.bind (Confined.modifyFat32 (fun _ => rfl) fun _ => rfl)
    fun _ => ?_
  refine Confined.bind (Confined.flushIfSata _) fun _ => ?_
  exact Confined.report _ _

/-! ## The sizes that fit -/

theorem fits_iff {total : Nat} :
    Fits total ↔ 42 ≤ total ∧ total ≤ 4294966302 := by
  constructor
  · intro h
    have hclusters := h.clusters_le
    have hroot := h.root
    have hpos := h.fatSize_pos
    have hrounding := h.rounding
    omega
  · rintro ⟨hlow, hhigh⟩
    exact fits_of_le hlow hhigh

/-- The size of the volume and of its FAT, as the boot sector has them. -/
def storedTotal (s : System) : Nat := readLe (volumeSector s 0).toBuf 32 4

def storedFatSize (s : System) : Nat := readLe (volumeSector s 0).toBuf 36 4

/--
A volume of `total` sectors that fits: nothing was cut off or wrapped around on
the way to its layout, and nothing was written outside the partition.
-/
structure FormatFits (s s' : System) (total : Nat) : Prop where
  stored : storedTotal s' = total
  reserved : 32 ≤ total
  rounding : total - 32 + 1025 < 4294967296
  data : 32 + 2 * storedFatSize s' ≤ total
  clusters : 32 + 2 * storedFatSize s' + 8 * formatClusters (u32 total) ≤ total
  root : 1 ≤ formatClusters (u32 total)
  writes : ∃ new, s'.device.writes = new ++ s.device.writes ∧
    ∀ lba ∈ new, s.fat32.partitionOffset ≤ lba ∧
      lba < s.fat32.partitionOffset + total

theorem stored_after_format {s' : System} {part : Partition} {total : Nat}
    {label : Option (List UInt8)} {info : Sector} {fatSize count : Nat}
    (hs' : Shows s' (part.formatted (bootSector total label) info fatSize count)) :
    storedTotal s' = u32 total ∧ storedFatSize s' = formatFatSize total := by
  have hboot : volumeSector s' 0 = bootSector total label := by
    rw [hs'.sectors 0 (by decide), Partition.formatted_boot]
  have hfat := formatFatSize_le total
  rw [storedTotal, storedFatSize, hboot, boot_total, boot_fatSize]
  have hlt := u32_lt total
  constructor
  · omega
  · omega

/--
`fat32_format` on a fault-free device that holds the partition makes a volume
that fits exactly for these sizes; it never refuses one.
-/
theorem format_fits_iff {s : System} (hs : s.device.FaultFree) {total : UInt64}
    (hdevice : s.fat32.partitionOffset + total.toNat ≤ 18446744073709551616)
    (label : Option (List UInt8)) :
    ∃ status s', format total label s = some (status, s') ∧
      ((status = -1 ∨ FormatFits s s' total.toNat) ↔
        42 ≤ total.toNat ∧ total.toNat ≤ 4294966302) := by
  obtain ⟨s', hformat, hs'⟩ := format_moves_any (partitionOf s) total label s
    ⟨hs, rfl, fun _ _ => rfl⟩
  obtain ⟨hstored, hstoredFat⟩ := stored_after_format hs'
  have hu32 : u32 (u32 total.toNat) = u32 total.toNat := u32_of_lt (u32_lt _)
  rw [hu32] at hstored
  refine ⟨0, s', hformat, ?_⟩
  rw [← fits_iff]
  constructor
  · rintro (hstatus | h)
    · exact absurd hstatus (by decide)
    have hsame : u32 total.toNat = total.toNat := hstored.symm.trans h.stored
    have hdata := h.data
    have hroot := h.root
    rw [hsame] at hstoredFat hroot
    rw [hstoredFat] at hdata
    exact ⟨h.reserved, h.rounding, hdata, hroot⟩
  · intro h
    have hsame : u32 total.toNat = total.toNat := u32_of_lt h.lt
    rw [hsame] at hstored hstoredFat
    right
    constructor
    case stored => exact hstored
    case reserved => exact h.reserved
    case rounding => exact h.rounding
    case data =>
      rw [hstoredFat]
      exact h.data
    case clusters =>
      rw [hstoredFat, hsame]
      exact h.clusters_le
    case root =>
      rw [hsame]
      exact h.root
    case writes =>
      obtain ⟨new, hnew, hinside⟩ :=
        (format_confined label h s 0 s' rfl hformat).writes
      refine ⟨new, hnew, fun w hw => ?_⟩
      obtain ⟨lba, hlba, rfl⟩ := hinside w hw
      have hplace : u64 (s.fat32.partitionOffset + lba) =
          s.fat32.partitionOffset + lba := by
        unfold u64
        omega
      rw [hplace]
      omega

theorem format_of_hundred_sectors_fits :
    ∃ status s', format 100 none (.startup fun _ => Sector.zero) =
        some (status, s') ∧
      ((status = -1 ∨ FormatFits (.startup fun _ => Sector.zero) s' 100) ↔
        42 ≤ 100 ∧ 100 ≤ 4294966302) :=
  @format_fits_iff _ (System.startup_faultFree _) 100 (by decide) none

/-- A size over 32 bits is cut off: a hundred sectors are all that is left. -/
theorem format_cuts_size_off :
    ∃ s', format 4294967396 none (.startup fun _ => Sector.zero) = some (0, s') ∧
      storedTotal s' = 100 ∧
      ¬ FormatFits (.startup fun _ => Sector.zero) s' 4294967396 := by
  obtain ⟨s', hformat, hs'⟩ := format_moves_any
    (partitionOf (.startup fun _ => Sector.zero)) 4294967396 none _
    ⟨System.startup_faultFree _, rfl, fun _ _ => rfl⟩
  have hstored : storedTotal s' = 100 := (stored_after_format hs').1
  refine ⟨s', hformat, hstored, fun h => ?_⟩
  have hsize := h.stored
  rw [hstored] at hsize
  exact absurd hsize (by decide)

end EntropyOS.Fat32
