import EntropyOS.Fat32.Volume

/-!
# What a call leaves alone

The rules hold with any faults.  A call that starts with the mounted volume
`fs` spares the sectors `A` when they are the same after it.
-/

namespace EntropyOS.Fat32

open EntropyOS.Foundation

/-- The volume stays mounted where it is, and its sectors `A` stay the same. -/
def Spares (fs : Fs) (A : Nat → Prop) (s s' : System) : Prop :=
  s.fat32.fs = fs → s'.fat32.fs = fs ∧
    s'.fat32.partitionOffset = s.fat32.partitionOffset ∧
    ∀ lba < 4294967296, A lba → volumeSector s' lba = volumeSector s lba

instance (fs : Fs) (A : Nat → Prop) : Std.Refl (Spares fs A) :=
  ⟨fun _ hfs => ⟨hfs, rfl, fun _ _ _ => rfl⟩⟩

instance (fs : Fs) (A : Nat → Prop) : IsTrans System (Spares fs A) :=
  ⟨fun s s' s'' h h' hfs => by
    obtain ⟨hfs', hoffset, hsame⟩ := h hfs
    obtain ⟨hfs'', hoffset', hsame'⟩ := h' hfs'
    refine ⟨hfs'', hoffset'.trans hoffset, fun lba hlba hA => ?_⟩
    rw [hsame' lba hlba hA, hsame lba hlba hA]⟩

section Rules

variable {fs : Fs} {A : Nat → Prop}

theorem Spares.of_sectors {s s' : System} (hfat : s'.fat32 = s.fat32)
    (hsectors : s'.device.sectors = s.device.sectors) : Spares fs A s s' := by
  intro hfs
  refine ⟨by rw [hfat]; exact hfs, by rw [hfat], fun lba _ _ => ?_⟩
  rw [volumeSector, volumeSector, hfat, hsectors]

theorem getFs_spares {α : Type} {next : Fs → Program System α}
    (h : Within (Spares fs A) (next fs)) :
    Within (Spares fs A) (getFs >>= next) := by
  intro s a s' hrun hfs
  rw [Program.bind_of_some (getFs_apply s), hfs] at hrun
  exact h s a s' hrun hfs

theorem text_spares (message : String) : Within (Spares fs A) (text message) :=
  Within.modify fun _ => Spares.of_sectors rfl rfl

theorem getFat32_spares : Within (Spares fs A) getFat32 :=
  Within.bind Within.get fun _ => Within.pure _

theorem modifyFat32_spares {f : Statics → Statics}
    (h : ∀ st, (f st).fs = st.fs ∧ (f st).partitionOffset = st.partitionOffset) :
    Within (Spares fs A) (modifyFat32 f) := by
  refine Within.modify fun s hfs => ⟨(h _).1.trans hfs, (h _).2, fun lba _ _ => ?_⟩
  simp only [volumeSector, (h s.fat32).2]

theorem transferFails_spares (lba : Nat) :
    Within (Spares fs A) (transferFails lba) := by
  intro s fails s' h
  cases h
  exact Spares.of_sectors rfl rfl

theorem readSector_spares (lba : Nat) : Within (Spares fs A) (readSector lba) := by
  refine Within.bind getFat32_spares fun st => ?_
  refine Within.bind Within.get fun s => Within.ite ?_ (Within.pure none)
  refine Within.bind (transferFails_spares _) fun fails => Within.ite ?_ ?_
  · refine Within.ite (Within.pure none) ?_
    exact Within.bind (text_spares _) fun _ => Within.pure none
  · exact Within.pure _

theorem writeSector_spares {lba : Nat} (sector : Sector) (hlba : lba < 4294967296)
    (hA : ¬ A lba) : Within (Spares fs A) (writeSector lba sector) := by
  intro s a s' hrun
  change blockWriteSector (u64 (s.fat32.partitionOffset + lba)) sector s =
    some (a, s') at hrun
  by_cases hs : (s.device.sataPresent || s.device.msPresent) = true
  · rw [blockWriteSector_present _ hs] at hrun
    split at hrun
    · obtain ⟨-, rfl⟩ := Prod.mk.inj (Option.some.inj hrun)
      exact Spares.of_sectors rfl rfl
    · obtain ⟨-, rfl⟩ := Prod.mk.inj (Option.some.inj hrun)
      refine fun hfs => ⟨hfs, rfl, fun other hother hkept => ?_⟩
      have hput := volumeSector_put s.tick sector hlba hother
      refine hput.trans (if_neg ?_)
      rintro rfl
      exact hA hkept
  · unfold blockWriteSector at hrun
    rw [Program.get_bind, if_neg hs] at hrun
    obtain ⟨-, rfl⟩ := Prod.mk.inj (Option.some.inj hrun)
    exact Spares.of_sectors rfl rfl

theorem writeSectors_spares {lba count : Nat} (buf : Buf) (i : Nat)
    (hend : lba + i + count ≤ 4294967296)
    (hA : ∀ j < count, ¬ A (lba + i + j)) :
    Within (Spares fs A) (writeSectors lba buf count i) := by
  induction count generalizing i with
  | zero => exact Within.pure _
  | succ count ih =>
      refine Within.bind (writeSector_spares _ (by omega) ?_) fun status => ?_
      · exact hA 0 (Nat.succ_pos count)
      · refine Within.ite (Within.pure _) (ih (i + 1) (by omega) fun j hj => ?_)
        have hnext := hA (j + 1) (by omega)
        rwa [show lba + i + (j + 1) = lba + (i + 1) + j by omega] at hnext

theorem flushIfSata_spares (warning : String) :
    Within (Spares fs A) (flushIfSata warning) := by
  have hflush : ∀ count, Within (Spares fs A) (flushCache warning count) := by
    intro count
    induction count with
    | zero => exact Within.pure _
    | succ count ih =>
        refine Within.bind (Within.bind Within.get fun s => ?_) fun status =>
          Within.ite (Within.bind (text_spares _) fun _ => ih) ih
        refine Within.ite ?_ (Within.pure _)
        exact Within.bind (transferFails_spares _) fun _ =>
          Within.ite (Within.pure _) (Within.pure _)
  exact Within.bind Within.get fun s => Within.ite (hflush 5) (Within.pure _)

/-! ## Clusters and links -/

theorem writeCluster_spares_at {cluster : Nat} (buf : Buf)
    (hend : fs.clusterToLba cluster + fs.sectorsPerCluster ≤ 4294967296)
    (hA : ∀ j < fs.sectorsPerCluster, ¬ A (fs.clusterToLba cluster + j)) :
    Within (Spares fs A) (writeCluster cluster buf) := by
  refine getFs_spares ?_
  have hend' : fs.clusterToLba cluster + 0 + fs.sectorsPerCluster ≤ 4294967296 := by
    rwa [Nat.add_zero]
  have hA' : ∀ j < fs.sectorsPerCluster, ¬ A (fs.clusterToLba cluster + 0 + j) := by
    rwa [Nat.add_zero]
  exact writeSectors_spares buf 0 hend' hA'

theorem setNextCluster_spares_at {cluster : Nat} (next : Nat)
    (hfirst : ¬ A (fs.fatSector cluster))
    (hbackup : fs.numFats > 1 → ¬ A (u32 (fs.fatSector cluster + fs.fatSize))) :
    Within (Spares fs A) (setNextCluster cluster next) := by
  refine getFs_spares (Within.bind (readSector_spares _) fun read => ?_)
  cases read with
  | none => exact Within.pure _
  | some sector =>
      refine Within.bind (writeSector_spares _ (u32_lt _) hfirst) fun status =>
        Within.ite (Within.pure _) ?_
      by_cases hcopies : fs.numFats > 1
      · rw [if_pos hcopies]
        exact Within.bind (writeSector_spares _ (u32_lt _) (hbackup hcopies))
          fun status => Within.ite (Within.pure _) (Within.pure _)
      · rw [if_neg hcopies]
        exact Within.pure _

theorem freeCluster_spares_at {cluster : Nat}
    (hfirst : ¬ A (fs.fatSector cluster))
    (hbackup : fs.numFats > 1 → ¬ A (u32 (fs.fatSector cluster + fs.fatSize))) :
    Within (Spares fs A) (freeCluster cluster) := by
  refine Within.bind (setNextCluster_spares_at free hfirst hbackup)
    fun result => Within.ite (Within.bind (modifyFat32_spares fun st => ?_)
      fun _ => Within.pure _) (Within.pure _)
  split
  · exact ⟨rfl, rfl⟩
  · exact ⟨rfl, rfl⟩

end Rules

end EntropyOS.Fat32
