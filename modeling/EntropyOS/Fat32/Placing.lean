import EntropyOS.Fat32.Frames
import EntropyOS.Fat32.Accounting
import EntropyOS.Fat32.Spares
import EntropyOS.Fat32.Walking

/-!
# The geometry after formatting

Whatever size is asked for, the volume that is mounted has its FAT at sector 32
and its clusters behind both copies.  No access by number, however wild the
number, reaches the FSInfo sector.
-/

namespace EntropyOS.Fat32

open EntropyOS.Foundation

/-- The places `fat32_format` chooses, for every size. -/
structure Fs.Placed (fs : Fs) : Prop where
  sectorsPerCluster : fs.sectorsPerCluster = 8
  numFats : fs.numFats = 2
  fatBeginLba : fs.fatBeginLba = 32
  clusterBeginLba : fs.clusterBeginLba = 32 + 2 * fs.fatSize
  fatSize : fs.fatSize ≤ 4186127
  totalClusters : fs.totalClusters < 536870912
  clustersEnd : ∀ c ≤ fs.totalClusters, c < 128 * fs.fatSize →
    fs.clusterBeginLba + 8 * c ≤ 4294967296

theorem formattedFs_placed (total : Nat) : (formattedFs total).Placed := by
  constructor
  case sectorsPerCluster | numFats | fatBeginLba | clusterBeginLba => rfl
  case fatSize => exact formatFatSize_le total
  case totalClusters =>
    have hdata := u32_lt (total + 4294967296 - u32 (32 + 2 * formatFatSize total))
    simp only [formattedFs, newFs, formatClusters, formatDataSectors]
    omega
  case clustersEnd =>
    intro c hc hentries
    simp only [formattedFs, newFs, formatClusters, formatDataSectors,
      formatFatSize, u32] at hc hentries ⊢
    omega

/-! ## Where an access by number goes -/

namespace Fs.Placed

variable {fs : Fs} (h : fs.Placed) {cluster : Nat}

include h

theorem fatSector_eq (cluster : Nat) :
    fs.fatSector cluster = 32 + cluster % 1073741824 / 128 := by
  rw [Fs.fatSector, h.fatBeginLba]
  simp only [u32]
  omega

theorem clusterToLba_eq (hlow : 2 ≤ cluster)
    (hend : fs.clusterBeginLba + 8 * cluster ≤ 4294967304) :
    fs.clusterToLba cluster = fs.clusterBeginLba + 8 * (cluster - 2) := by
  have hbegin := h.clusterBeginLba
  rw [Fs.clusterToLba, h.sectorsPerCluster]
  simp only [u32]
  omega

theorem end_of_live (hlive : Live cluster) :
    fs.clusterBeginLba + 8 * cluster ≤ 4294967304 := by
  have hbegin := h.clusterBeginLba
  have hsize := h.fatSize
  have hhigh := hlive.2
  simp only [eoc] at hhigh
  omega

theorem linkOf_eq {s : System} (hfs : s.fat32.fs = fs) {d : Nat}
    (hd : d < 128 * fs.fatSize) :
    linkOf s d = readLe (volumeSector s (32 + d / 128)).toBuf (4 * (d % 128)) 4 %
      268435456 := by
  have hsize := h.fatSize
  have hsector : fs.fatSector d = 32 + d / 128 := by
    rw [h.fatSector_eq]
    omega
  rw [linkOf, hfs, hsector, entryOffset_eq]

end Fs.Placed

/-! ## What stays the same on a fault-free device -/

/-- The device stays without faults, and the sectors `A` of the volume stay. -/
def Kept (fs : Fs) (A : Nat → Prop) (s s' : System) : Prop :=
  s.device.FaultFree → s.fat32.fs = fs →
    s'.device.FaultFree ∧ s'.fat32.fs = fs ∧
      ∀ lba < 4294967296, A lba → volumeSector s' lba = volumeSector s lba

instance (fs : Fs) (A : Nat → Prop) : Std.Refl (Kept fs A) :=
  ⟨fun _ hs hfs => ⟨hs, hfs, fun _ _ _ => rfl⟩⟩

instance (fs : Fs) (A : Nat → Prop) : IsTrans System (Kept fs A) :=
  ⟨fun s s' s'' h h' hs hfs => by
    obtain ⟨hs', hfs', hsame⟩ := h hs hfs
    obtain ⟨hs'', hfs'', hsame'⟩ := h' hs' hfs'
    refine ⟨hs'', hfs'', fun lba hlba hA => ?_⟩
    rw [hsame' lba hlba hA, hsame lba hlba hA]⟩

private theorem faultFree_stepwise :
    Stepwise (fun _ => True) fun s s' => s.device.FaultFree → s'.device.FaultFree where
  refl s hs := hs
  trans h h' hs := h' (h hs)
  text s message _ hs := ⟨hs.present, hs.faults⟩
  tick s hs := by rwa [System.tick_eq hs.faults]
  put s lba sector hs := ⟨hs.present, hs.faults⟩
  mark s lba hs := ⟨hs.present, hs.faults⟩
  fat32 s st hs := ⟨hs.present, hs.faults⟩
  readFailed := trivial
  writeFailed := trivial

section Kept

variable {fs : Fs} {A : Nat → Prop} {α : Type}

theorem Kept.of_spares {program : Program System α}
    (hspares : Within (Spares fs A) program)
    (hfaults : Within (fun s s' : System =>
      s.device.FaultFree → s'.device.FaultFree) program) :
    Within (Kept fs A) program := by
  intro s a s' hrun hs hfs
  obtain ⟨hfs', -, hsame⟩ := hspares s a s' hrun hfs
  exact ⟨hfaults s a s' hrun hs, hfs', hsame⟩

theorem text_kept (message : String) : Within (Kept fs A) (text message) :=
  .of_spares (text_spares message) (faultFree_stepwise.within_text trivial)

theorem flushIfSata_kept (warning : String) :
    Within (Kept fs A) (flushIfSata warning) :=
  .of_spares (flushIfSata_spares warning)
    (faultFree_stepwise.within_flushIfSata trivial)

theorem getFs_kept {next : Fs → Program System α}
    (h : Within (Kept fs A) (next fs)) : Within (Kept fs A) (getFs >>= next) := by
  intro s a s' hrun hs hfs
  rw [Program.bind_of_some (getFs_apply s), hfs] at hrun
  exact h s a s' hrun hs hfs

theorem readCluster_kept (cluster : Nat) : Within (Kept fs A) (readCluster cluster) := by
  intro s a s' hrun hs hfs
  rw [readCluster_faultFree hs] at hrun
  cases hrun
  exact ⟨hs, hfs, fun _ _ _ => rfl⟩

variable (h : fs.Placed)

include h

/-- The clusters lie behind the FAT, and the FSInfo sector lies before it. -/
theorem writeCluster_kept {cluster : Nat} (buf : Buf) (hlow : 2 ≤ cluster)
    (hend : fs.clusterBeginLba + 8 * cluster ≤ 4294967304) :
    Within (Kept fs (· < fs.clusterBeginLba)) (writeCluster cluster buf) := by
  have hlba := h.clusterToLba_eq hlow hend
  apply Kept.of_spares _ (faultFree_stepwise.within_writeCluster _ _)
  apply writeCluster_spares_at buf
  · rw [hlba, h.sectorsPerCluster]
    omega
  · intro j _
    rw [hlba]
    omega

theorem setNextCluster_kept (cluster next : Nat) :
    Within (Kept fs (· = 1)) (setNextCluster cluster next) := by
  have hsize := h.fatSize
  have hsector := h.fatSector_eq cluster
  apply Kept.of_spares _ (faultFree_stepwise.within_setNextCluster _ _)
  apply setNextCluster_spares_at next
  · omega
  · intro _
    rw [u32_of_lt (by omega)]
    omega

theorem freeCluster_kept (cluster : Nat) :
    Within (Kept fs (· = 1)) (freeCluster cluster) := by
  have hsize := h.fatSize
  have hsector := h.fatSector_eq cluster
  apply Kept.of_spares _ (faultFree_stepwise.within_freeCluster _)
  apply freeCluster_spares_at
  · omega
  · intro _
    rw [u32_of_lt (by omega)]
    omega

theorem linkOf_of_kept {s s' : System} (hkept : Kept fs A s s')
    (hs : s.device.FaultFree) (hfs : s.fat32.fs = fs) {d : Nat}
    (hd : d < 128 * fs.fatSize) (hA : A (32 + d / 128)) :
    linkOf s' d = linkOf s d := by
  have hsize := h.fatSize
  obtain ⟨-, hfs', hsame⟩ := hkept hs hfs
  rw [h.linkOf_eq hfs hd, h.linkOf_eq hfs' hd, hsame _ (by omega) hA]

theorem setNextCluster_links {s : System} (hs : s.device.FaultFree)
    (hfs : s.fat32.fs = fs) (cluster next : Nat) :
    ∃ s', setNextCluster cluster next s = some (0, s') ∧ s'.fat32 = s.fat32 ∧
      ∀ d < 128 * fs.fatSize, linkOf s' d =
        if d = cluster % 1073741824 then next % 268435456 else linkOf s d := by
  have hsize := h.fatSize
  have hsector := h.fatSector_eq cluster
  have hbackup : u32 (fs.fatSector cluster + fs.fatSize) =
      32 + cluster % 1073741824 / 128 + fs.fatSize := by
    rw [u32_of_lt (by omega), hsector]
  have hfs' : (withLink s cluster next).fat32.fs = fs := by
    rw [withLink_fat32, hfs]
  refine ⟨withLink s cluster next, setNextCluster_faultFree cluster next hs,
    withLink_fat32 s cluster next, fun d hd => ?_⟩
  rw [h.linkOf_eq hfs' hd, h.linkOf_eq hfs hd, volumeSector_withLink _ _ _ (by omega),
    hfs, hbackup]
  by_cases hsame : d / 128 = cluster % 1073741824 / 128
  · rw [if_pos (.inl (by omega)), linkedSector_link _ _ (by omega)]
    have hentry : (d % 128 = cluster % 128) = (d = cluster % 1073741824) := by
      apply propext
      omega
    simp only [hentry, show fs.fatSector cluster = 32 + d / 128 by omega]
  · rw [if_neg (by omega), if_neg (by omega)]

end Kept

end EntropyOS.Fat32
