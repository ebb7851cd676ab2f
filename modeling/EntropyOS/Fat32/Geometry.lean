import EntropyOS.Fat32.Compare
import EntropyOS.Fat32.Faults
import EntropyOS.Fat32.Listing
import EntropyOS.Fat32.Walking

/-!
# The geometry that mounting accepts

`fat32_init` takes the cluster size from byte 13 of the boot sector without a
look at it.  It divides by it, and it is what every access to the cluster
buffers of 4096 bytes is bounded by.
-/

namespace EntropyOS.Fat32

open EntropyOS.Foundation

/-! ## Mounting -/

/-- `fat32_init` reads this boot sector, and its signature is right. -/
structure BootRead (s : System) (boot : Buf) : Prop where
  present : s.Present
  transferred : s.device.faults 0 (u64 (s.fat32.partitionOffset + 0)) = false
  eq : boot = (volumeSector s 0).toBuf
  signature : boot 510 = 0x55 ∧ boot 511 = 0xAA

/--
No division by zero, and no index out of range after a success: `none` is
a trap, since there is no loop in the call.
-/
structure InitSafe (s : System) : Prop where
  divides : init s ≠ none
  geometry : ∀ s', init s = some (0, s') →
    1 ≤ s'.fat32.fs.sectorsPerCluster ∧
    s'.fat32.fs.sectorsPerCluster * 512 ≤ 4096 ∧
    ∀ k, ClusterIndex s'.fat32.fs k → k < 4096

section Mounting

variable {s : System} {boot : Buf}

private theorem readSector_of_bootRead (h : BootRead s boot) :
    readSector 0 s = some (some (volumeSector s 0), s.tick) :=
  blockReadSector_present _ h.present h.transferred

theorem init_traps (h : BootRead s boot) (hsize : boot 13 = 0) : init s = none := by
  have hread := readSector_of_bootRead h
  obtain ⟨hs, -, rfl, hsignature⟩ := h
  unfold init
  rw [Program.bind_of_some (blockIsPresent_present hs)]
  simp only [if_true]
  rw [Program.bind_of_some hread]
  simp only [hsignature, ne_eq, not_true_eq_false, or_self, if_false, hsize, if_true]
  rfl

theorem init_accepts (h : BootRead s boot) (hsize : boot 13 ≠ 0) :
    ∃ s', init s = some (0, s') ∧ s'.fat32.fs = .ofBoot boot := by
  have hread := readSector_of_bootRead h
  obtain ⟨hs, -, rfl, hsignature⟩ := h
  unfold init
  rw [Program.bind_of_some (blockIsPresent_present hs)]
  simp only [if_true]
  rw [Program.bind_of_some hread]
  simp only [hsignature, ne_eq, not_true_eq_false, or_self, if_false, hsize]
  let mounted : System := { s.tick with
    fat32 := { s.fat32 with fs := .ofBoot (volumeSector s 0).toBuf } }
  rw [Program.bind_of_some
    (show modifyFat32 _ s.tick = some ((), mounted) from rfl)]
  obtain ⟨info, after, hinfo⟩ := blockReadSector_ends mounted
    (u64 (mounted.fat32.partitionOffset + 1))
  have hkept := (blockReadSector_transfers _ _ _ _ hinfo).fat32
  have hfs : after.fat32.fs = .ofBoot (volumeSector s 0).toBuf := by
    rw [hkept]
  rw [Program.bind_of_some (show readSector 1 mounted = _ from hinfo)]
  cases info with
  | none => exact ⟨_, rfl, hfs⟩
  | some sector =>
      simp only
      split_ifs
      · exact ⟨_, rfl, hfs⟩
      · exact ⟨_, rfl, hfs⟩

theorem init_refuses (h : ∀ boot, ¬ BootRead s boot) :
    ∃ s', init s = some (-1, s') := by
  unfold init
  by_cases hs : s.Present
  · rw [Program.bind_of_some (blockIsPresent_present hs)]
    simp only [if_true]
    have hread := blockReadSector_cases s (u64 (s.fat32.partitionOffset + 0))
    have hpresent : (s.device.sataPresent || s.device.msPresent) = true := hs
    rw [if_pos hpresent] at hread
    cases hfault : s.device.faults 0 (u64 (s.fat32.partitionOffset + 0)) with
    | true =>
        rw [hfault, if_pos rfl] at hread
        rw [Program.bind_of_some (show readSector 0 s = _ from hread)]
        exact ⟨_, rfl⟩
    | false =>
        rw [hfault, if_neg Bool.false_ne_true] at hread
        rw [Program.bind_of_some (show readSector 0 s = _ from hread)]
        have hwrong : (volumeSector s 0).toBuf 510 ≠ 0x55 ∨
            (volumeSector s 0).toBuf 511 ≠ 0xAA := by
          by_contra hright
          rw [not_or, not_not, not_not] at hright
          exact h _ ⟨hs, hfault, rfl, hright⟩
        simp only [volumeSector] at hwrong
        simp only [hwrong, if_true]
        exact ⟨_, rfl⟩
  · have habsent : blockIsPresent s = some (false, s) := by
      change some ((s.device.sataPresent || s.device.msPresent), s) = _
      rw [Bool.eq_false_iff.mpr hs]
    rw [Program.bind_of_some habsent]
    exact ⟨_, rfl⟩

/-- Mounting is safe exactly when the sectors of a cluster are one to eight. -/
theorem initSafe_iff : InitSafe s ↔
    ∀ boot, BootRead s boot → 1 ≤ (boot 13).toNat ∧ (boot 13).toNat ≤ 8 := by
  constructor
  · intro h boot hboot
    by_cases hsize : boot 13 = 0
    · exact absurd (init_traps hboot hsize) h.divides
    · obtain ⟨s', hinit, hfs⟩ := init_accepts hboot hsize
      obtain ⟨hlow, hhigh, -⟩ := h.geometry s' hinit
      rw [hfs] at hlow hhigh
      change (boot 13).toNat * 512 ≤ 4096 at hhigh
      exact ⟨hlow, by omega⟩
  · intro h
    by_cases hread : ∃ boot, BootRead s boot
    · obtain ⟨boot, hboot⟩ := hread
      obtain ⟨hlow, hhigh⟩ := h boot hboot
      have hsize : boot 13 ≠ 0 := by
        intro hzero
        rw [hzero] at hlow
        exact absurd hlow (by decide)
      obtain ⟨mounted, hinit, hfs⟩ := init_accepts hboot hsize
      refine ⟨by simp [hinit], fun s' hrun => ?_⟩
      rw [hinit] at hrun
      cases hrun
      rw [clusterIndex_iff, hfs]
      exact ⟨hlow, by simp only [Fs.ofBoot]; omega, hhigh⟩
    · obtain ⟨after, hinit⟩ := init_refuses (not_exists.mp hread)
      refine ⟨by simp [hinit], fun s' hrun => ?_⟩
      rw [hinit] at hrun
      cases hrun

end Mounting

/-- A boot sector with nothing but a cluster size and the signature. -/
def sizedBoot (sectorsPerCluster : UInt8) : Sector := fun k =>
  if k = 13 then sectorsPerCluster
  else if k = 510 then 0x55 else if k = 511 then 0xAA else 0

private theorem sizedBoot_read (sectorsPerCluster : UInt8) :
    BootRead (System.startup fun _ => sizedBoot sectorsPerCluster)
      (sizedBoot sectorsPerCluster).toBuf where
  present := rfl
  transferred := rfl
  eq := rfl
  signature := ⟨rfl, rfl⟩

/-- The driver divides by zero, and it mounts clusters of sixteen sectors. -/
theorem init_not_safe :
    ¬ InitSafe (System.startup fun _ => sizedBoot 0) ∧
    ¬ InitSafe (System.startup fun _ => sizedBoot 16) := by
  constructor
  · intro h
    exact h.divides (init_traps (sizedBoot_read 0) rfl)
  · intro h
    obtain ⟨s', hinit, hfs⟩ := init_accepts (sizedBoot_read 16) (by decide)
    obtain ⟨-, hfits, -⟩ := h.geometry s' hinit
    rw [hfs] at hfits
    exact absurd hfits (by decide)

end EntropyOS.Fat32
