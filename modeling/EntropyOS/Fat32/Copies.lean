import EntropyOS.Fat32.Confinement

/-!
# The two copies of the FAT

`fat32_set_next_cluster` writes a whole sector of the FAT and then the same
sector of the second copy.  So a sector and its copy agree from the first link
on that is stored in it, and until then both are as `fat32_format` left them:
equal, but for the first.
-/

namespace EntropyOS.Fat32

open EntropyOS.Foundation

/-- Sector `k` of the mounted FAT and of its copy. -/
def CopiesAgree (s : System) (k : Nat) : Prop :=
  volumeSector s (s.fat32.fs.fatBeginLba + k) =
    volumeSector s (s.fat32.fs.fatBeginLba + s.fat32.fs.fatSize + k)

/-- Neither the sector of the FAT nor its copy was changed. -/
def CopiesKept (s s' : System) (k : Nat) : Prop :=
  volumeSector s' (s.fat32.fs.fatBeginLba + k) =
    volumeSector s (s.fat32.fs.fatBeginLba + k) ∧
  volumeSector s' (s.fat32.fs.fatBeginLba + s.fat32.fs.fatSize + k) =
    volumeSector s (s.fat32.fs.fatBeginLba + s.fat32.fs.fatSize + k)

/-- Without faults a sector of the FAT agrees with its copy, or both are kept. -/
structure Mirrored (s s' : System) : Prop where
  fs : s'.fat32.fs = s.fat32.fs
  faultFree : s.device.FaultFree → s'.device.FaultFree
  copies : s.device.FaultFree → ∀ k < s.fat32.fs.fatSize,
    CopiesAgree s' k ∨ CopiesKept s s' k

theorem CopiesKept.agree {s s' : System} {k : Nat} (h : CopiesKept s s' k)
    (hfs : s'.fat32.fs = s.fat32.fs) (hagree : CopiesAgree s k) : CopiesAgree s' k := by
  rw [CopiesAgree, hfs, h.1, h.2]
  exact hagree

theorem Mirrored.trans {s s' s'' : System} (h : Mirrored s s') (h' : Mirrored s' s'') :
    Mirrored s s'' := by
  refine ⟨h'.fs.trans h.fs, fun hs => h'.faultFree (h.faultFree hs), fun hs k hk => ?_⟩
  rcases h'.copies (h.faultFree hs) k (by rwa [h.fs]) with hagree | hkept
  · exact .inl hagree
  rcases h.copies hs k hk with hagree | hbefore
  · exact .inl (hkept.agree h'.fs hagree)
  · rw [CopiesKept, h.fs] at hkept
    exact .inr ⟨hkept.1.trans hbefore.1, hkept.2.trans hbefore.2⟩

instance : Effect Mirrored where
  refl _ := ⟨rfl, id, fun _ _ _ => .inr ⟨rfl, rfl⟩⟩
  trans _ _ _ := Mirrored.trans
  fs := Mirrored.fs
  still h := ⟨h.fs, h.faultFree, fun _ _ _ => .inr ⟨h.sector_eq _, h.sector_eq _⟩⟩

/-! ## Writing -/

namespace Fs.Fitted

variable {fs : Fs} (h : fs.Fitted) (hcopies : 1 < fs.numFats)

include h hcopies

theorem copies_end : fs.fatBeginLba + 2 * fs.fatSize ≤ fs.clusterBeginLba ∧
    fs.clusterBeginLba < 4294967296 := by
  have hbegin := h.clusterBegin
  have hend := h.clustersEnd
  have htwo : 2 * fs.fatSize ≤ fs.numFats * fs.fatSize :=
    Nat.mul_le_mul_right _ hcopies
  omega

theorem setNextCluster_mirrored {c : Nat} (hc : c < fs.totalClusters + 2)
    (next : Nat) : Confined fs Mirrored (setNextCluster c next) := by
  rintro s a s' rfl hrun
  obtain ⟨hsector, hin⟩ := h.fatSector_eq hc
  obtain ⟨hcopiesEnd, hbegin⟩ := h.copies_end hcopies
  have hbackup : u32 (s.fat32.fs.fatSector c + s.fat32.fs.fatSize) =
      s.fat32.fs.fatSector c + s.fat32.fs.fatSize := u32_of_lt (by omega)
  have hspares : Within (Spares s.fat32.fs fun _ => False) (setNextCluster c next) :=
    setNextCluster_spares_at next not_false fun _ => not_false
  refine ⟨(hspares s a s' hrun rfl).1, fun hs => ?_, fun hs k hk => ?_⟩
  all_goals
    rw [setNextCluster_faultFree c next hs] at hrun
    cases hrun
  · exact withLink_faultFree c next hs
  · have hsectors := fun lba (hlba : lba < 4294967296) =>
      volumeSector_withLink s c next hlba
    by_cases hsame : s.fat32.fs.fatBeginLba + k = s.fat32.fs.fatSector c
    · left
      rw [CopiesAgree, withLink_fat32, hsectors _ (by omega), hsectors _ (by omega),
        if_pos (.inl hsame), if_pos (.inr ⟨hcopies, by omega⟩)]
    · right
      rw [CopiesKept, hsectors _ (by omega), hsectors _ (by omega),
        if_neg (by omega), if_neg (by omega)]
      exact ⟨rfl, rfl⟩

/-- A sector that belongs to neither copy. -/
theorem writeSector_mirrored {lba : Nat} (sector : Sector) (hlba : lba < 4294967296)
    (hbeside : lba < fs.fatBeginLba ∨ fs.clusterBeginLba ≤ lba) :
    Confined fs Mirrored (writeSector lba sector) := by
  rintro s a s' rfl hrun
  obtain ⟨hcopiesEnd, hbegin⟩ := h.copies_end hcopies
  have hspares : Within (Spares s.fat32.fs fun other => other ≠ lba)
      (writeSector lba sector) := writeSector_spares sector hlba (not_not.mpr rfl)
  obtain ⟨hfs, -, hsame⟩ := hspares s a s' hrun rfl
  refine ⟨hfs, fun hs => ?_, fun hs k hk => .inr ⟨?_, ?_⟩⟩
  · rw [writeSector_faultFree hs] at hrun
    cases hrun
    exact volumePut_faultFree hs _ _
  · exact hsame _ (by omega) (by omega)
  · exact hsame _ (by omega) (by omega)

theorem allows_mirrored (hreserved : 8 ≤ fs.fatBeginLba) : fs.Allows Mirrored where
  link next hc := h.setNextCluster_mirrored hcopies hc next
  data {c k} sector hc hk := by
    have hend := h.clustersEnd
    have hlast : (c - 2) * fs.sectorsPerCluster + fs.sectorsPerCluster ≤
        fs.totalClusters * fs.sectorsPerCluster := by
      rw [← Nat.succ_mul]
      obtain ⟨hlow, hhigh⟩ := hc
      exact Nat.mul_le_mul_right _ (by omega)
    obtain ⟨hcopiesEnd, hbegin⟩ := h.copies_end hcopies
    apply h.writeSector_mirrored hcopies sector
    · rw [h.clusterToLba_eq hc]
      omega
    · rw [h.clusterToLba_eq hc]
      omega
  info sector := h.writeSector_mirrored hcopies sector (by decide) (by omega)
  backupInfo sector := h.writeSector_mirrored hcopies sector (by decide) (by omega)

end Fs.Fitted

/-! ## Which clusters are in use -/

/-- When the first free clusters are taken, no free one is left among them. -/
private theorem lower_in_use_of_take (w : Volume) (count : Nat) {v' : Volume}
    (hnew : ∀ d ∈ w.freeList.take count, v'.link d ≠ free)
    (hother : ∀ d ∉ w.freeList.take count, v'.link d = w.link d) {c d : Nat}
    (hd : w.link d = free) (hd' : v'.link d ≠ free) (hc : w.fs.InRange c)
    (hle : c ≤ d) : v'.link c ≠ free := by
  have hmem : d ∈ w.freeList.take count := by
    by_contra hout
    exact hd' ((hother d hout).trans hd)
  by_cases htaken : c ∈ w.freeList.take count
  · exact hnew c htaken
  · rw [hother c htaken]
    intro hfree
    have hsorted := w.freeList_sorted
    have hlater : c ∈ w.freeList.drop count := by
      have hall := Volume.mem_freeList.mpr ⟨hc, hfree⟩
      rw [← List.take_append_drop count w.freeList, List.mem_append] at hall
      exact hall.resolve_left htaken
    rw [← List.take_append_drop count w.freeList, List.pairwise_append] at hsorted
    exact absurd (hsorted.2.2 d hmem c hlater) (not_lt.mpr hle)

/-- A call takes the free clusters with the lowest numbers. -/
theorem Outcome.lower_in_use {v v' : Volume} {call : Call} (h : Outcome v call v')
    {c d : Nat} (hd : v.link d = free) (hd' : v'.link d ≠ free) (hc : v.fs.InRange c)
    (hle : c ≤ d) : v'.link c ≠ free := by
  have hreleased : ∀ old, (v.release old).link d = free := by
    intro old
    rw [Volume.release_link, hd, ite_self]
  have hrange : ∀ old, (v.release old).fs.InRange c := by
    intro old
    rwa [Volume.release_fs]
  cases h with
  | @written n l old p filename data hn hdir hl hascii hsize htarget hlow hlength =>
      have hchain : (v.written p old (nameToFat filename) data).Chain _ _ :=
        Volume.written_chain hlow
      refine lower_in_use_of_take (v.release old) (clustersFor data.length) ?_ ?_
        (hreleased old) hd' (hrange old) hle
      · exact fun x hx => hchain.link_ne_free hx
      · intro x hx
        rw [Volume.written_link hx, Volume.release_link]
  | @created n l rest p cluster dirname hn hdir hl hascii htarget hunused hfree hlow =>
      have htake : v.freeList.take 1 = [cluster] := by
        rw [hfree]
        rfl
      refine lower_in_use_of_take v 1 ?_ ?_ hd hd' hc hle
      · intro x hx
        rw [htake, List.mem_singleton] at hx
        simp only [hx, Volume.created, Volume.finish_link, Volume.setData_link,
          Volume.take_link, if_pos]
        decide
      · intro x hx
        rw [htake, List.mem_singleton] at hx
        exact Volume.created_link hx
  | @directoryRemoved n l old =>
      refine lower_in_use_of_take (v.release old) 0 ?_ ?_
        (hreleased old) hd' (hrange old) hle
      · simp
      · simp [Volume.removed]
  | @fileRemoved l old =>
      refine lower_in_use_of_take (v.release old) 0 ?_ ?_
        (hreleased old) hd' (hrange old) hle
      · simp
      · simp [Volume.removed]

/-! ## Whole sessions -/

theorem mounted_copies {s formatted mounted : System} (hs : s.device.FaultFree)
    {total : UInt64} (h : Formattable total.toNat) {label : Option (List UInt8)}
    (hformat : format total label s = some (0, formatted))
    (hinit : init formatted = some (0, mounted)) :
    volumeSector mounted 32 = firstFatSector ∧
      ∀ k < formatFatSize total.toNat, k ≠ 0 →
        FatsAgree mounted (formatFatSize total.toNat) k := by
  have hpos := h.fits.fatSize_pos
  have hfit : 32 + 2 * formatFatSize total.toNat ≤ 4294967296 :=
    h.data.trans h.lt.le
  obtain ⟨s', hformat', hs'⟩ := format_moves (partitionOf s) label h.fits s
    ⟨hs, rfl, fun _ _ => rfl⟩
  rw [hformat] at hformat'
  cases hformat'
  obtain ⟨s'', hinit', hs''⟩ := init_moves _ h.fits.lt label
    (Partition.formatted_boot _ _ _ _)
    (Partition.formatted_info _ _ _ _) formatted hs'
  rw [hinit] at hinit'
  cases hinit'
  have hsame := hs''.sectors
  simp only [Partition.withStatics] at hsame
  have hfirst : ∀ k < formatFatSize total.toNat, volumeSector mounted (32 + k) =
      if k = 0 then firstFatSector else Sector.zero := by
    intro k hk
    rw [hsame _ (by omega)]
    exact Partition.formatted_first _ _ _ _ hpos hk
  have hsecond : ∀ k < formatFatSize total.toNat,
      volumeSector mounted (32 + formatFatSize total.toNat + k) = Sector.zero := by
    intro k hk
    rw [hsame _ (by omega)]
    exact Partition.formatted_second _ _ _ _ hpos hk
  refine ⟨(hfirst 0 hpos).trans (if_pos rfl), fun k hk hne => ?_⟩
  rw [FatsAgree, hfirst k hk, hsecond k hk, if_neg hne]

section Sessions

variable {total : UInt64} {label : Option (List UInt8)} {s s' : System}
  (h : Formattable total.toNat)
  (hs : Session total label (fun v c => c.HasRoom v) s)

include h hs

private theorem session_fs : s.fat32.fs = formattedFs total.toNat :=
  hs.fs_eq h fun _ _ hok => hok

/-- As long as the first sector of the FAT is untouched, so is cluster 3. -/
private theorem link_of_first (hfirst : volumeSector s 32 = firstFatSector)
    (hthree : (volumeOf s).fs.InRange 3) : (volumeOf s).link 3 = free := by
  have hfs := session_fs h hs
  have hlow : 3 < s.fat32.fs.totalClusters + 2 := hthree.2
  have hbegin : s.fat32.fs.fatBeginLba + 3 / 128 = 32 := by
    rw [hfs]
    rfl
  change (if 3 < s.fat32.fs.totalClusters + 2 then _ else _) = _
  rw [if_pos hlow]
  change readLe (volumeSector s (s.fat32.fs.fatBeginLba + 3 / 128)).toBuf _ 4 % _ = _
  rw [hbegin, hfirst]
  exact firstFat_link (by decide) (by decide)

/-- What one call does to the copies. -/
private theorem call_mirrored {c : Call} (hproper : c.Proper (volumeOf s))
    {status : Int} (hrun : c.run s = some (status, s')) : Mirrored s s' :=
  hs.run_confined h (fun _ _ hok => hok)
    ((formattedFs_fitted h).allows_mirrored (by decide : 1 < 2) (by decide : 8 ≤ 32))
    hproper hrun

end Sessions

section Copies

variable {total : UInt64} {label : Option (List UInt8)} {s : System}
  (h : Formattable total.toNat)

include h

/-- Every sector but the first agrees; the first does, or is as it was formatted. -/
theorem Session.copies (hs : Session total label (fun v c => c.HasRoom v) s) :
    (∀ k < formatFatSize total.toNat, k ≠ 0 → CopiesAgree s k) ∧
      (CopiesAgree s 0 ∨ volumeSector s 32 = firstFatSector ∧
        ∀ c, (volumeOf s).fs.InRange c → c ≠ 2 → (volumeOf s).link c = free) := by
  have hroom : ∀ v (c : Call), c.HasRoom v → c.HasRoom v := fun _ _ hok => hok
  induction hs with
  | @mount s s' s'' hfault hformat hinit =>
      obtain ⟨hfirst, hagree⟩ := mounted_copies hfault h hformat hinit
      obtain ⟨formatted, mounted, hformat', hinit', -, hfresh⟩ :=
        mount_executes hfault h label
      rw [hformat] at hformat'
      cases hformat'
      rw [hinit] at hinit'
      cases hinit'
      have hfs := session_fs h (.mount hfault hformat hinit)
      refine ⟨fun k hk hne => ?_, .inr ⟨hfirst, fun c hc hne => ?_⟩⟩
      · rw [CopiesAgree, hfs]
        exact hagree k hk hne
      · rw [hfresh.link c hc, if_neg hne]
  | @call s s' call hs hproper hok hrun ih =>
      obtain ⟨hkept, hfirst⟩ := ih
      obtain ⟨hrep, hregular⟩ := hs.represents h hroom
      obtain ⟨hfault, -, -⟩ := represents_iff.mp hrep
      have hfs := session_fs h hs
      have hmirrored := call_mirrored h hs hproper hrun
      have hcopies := hmirrored.copies hfault
      rw [hfs] at hcopies
      refine ⟨fun k hk hne => ?_, ?_⟩
      · rcases hcopies k hk with hagree | hsame
        · exact hagree
        · exact hsame.agree hmirrored.fs (hkept k hk hne)
      · rcases hcopies 0 h.fits.fatSize_pos with hagree | hsame
        · exact .inl hagree
        rcases hfirst with hagree | ⟨hfirst, hfree⟩
        · exact .inl (hsame.agree hmirrored.fs hagree)
        -- the first sector is as it was formatted, so no cluster was taken
        have hfirst' : volumeSector s' 32 = firstFatSector := by
          have hunchanged := hsame.1
          rw [hfs] at hunchanged
          exact hunchanged.trans hfirst
        refine .inr ⟨hfirst', fun c hc hne => ?_⟩
        by_contra hused
        have hreserved := hs.reserved h hroom
        obtain ⟨-, houtcome⟩ := hrep.outcome hreserved hregular hproper hok hrun
        have hfs' : (volumeOf s').fs = (volumeOf s).fs := hmirrored.fs
        obtain ⟨hlow, hhigh⟩ := hc
        have hthree : (volumeOf s').fs.InRange 3 := ⟨by decide, by omega⟩
        rw [hfs'] at hhigh
        have hused' := houtcome.lower_in_use (hfree c ⟨hlow, hhigh⟩ hne) hused
          (hfs' ▸ hthree) (by omega : 3 ≤ c)
        exact hused' (link_of_first h (.call hs hproper hok hrun) hfirst' hthree)

end Copies

/--
The sectors of the two FATs agree, but for the first while the root has the only
cluster in use.  What agrees once stays so, whatever a call returns.
-/
theorem session_copies_agree {total : UInt64} {label : Option (List UInt8)}
    {s : System} (h : Formattable total.toNat)
    (hs : Session total label (fun v c => c.HasRoom v) s) :
    (∀ k < formatFatSize total.toNat, k ≠ 0 →
      FatsAgree s (formatFatSize total.toNat) k) ∧
    (∀ c, (volumeOf s).fs.InRange c → c ≠ 2 → (volumeOf s).link c ≠ free →
      FatsAgree s (formatFatSize total.toNat) 0) ∧
    (FatsAgree s (formatFatSize total.toNat) 0 →
      ∀ (c : Call) (status : Int) (s' : System), c.Proper (volumeOf s) →
        c.run s = some (status, s') → FatsAgree s' (formatFatSize total.toNat) 0) := by
  have hfs := session_fs h hs
  have hagree : ∀ (t : System) (k : Nat), t.fat32.fs = formattedFs total.toNat →
      CopiesAgree t k → FatsAgree t (formatFatSize total.toNat) k := by
    intro t k ht hcopies
    rw [CopiesAgree, ht] at hcopies
    exact hcopies
  obtain ⟨hothers, hfirst⟩ := Session.copies h hs
  refine ⟨fun k hk hne => hagree s k hfs (hothers k hk hne), fun c hc hne hused => ?_,
    fun hzero c status s' hproper hrun => ?_⟩
  · rcases hfirst with hzero | ⟨-, hfree⟩
    · exact hagree s 0 hfs hzero
    · exact absurd (hfree c hc hne) hused
  · have hmirrored := call_mirrored h hs hproper hrun
    obtain ⟨hrep, -⟩ := hs.represents h fun _ _ hok => hok
    obtain ⟨hfault, -, -⟩ := represents_iff.mp hrep
    have hfs' : s'.fat32.fs = formattedFs total.toNat := hmirrored.fs.trans hfs
    apply hagree s' 0 hfs'
    rcases hmirrored.copies hfault 0 (by rw [hfs]; exact h.fits.fatSize_pos) with
      hcopies | hsame
    · exact hcopies
    · apply hsame.agree hmirrored.fs
      rw [CopiesAgree, hfs]
      exact hzero

/-- The first directory that is made repairs the sector. -/
theorem copies_agree_after_mkdir :
    ∃ s, Session 100 none (fun v c => c.HasRoom v) s ∧
      FatsAgree s (formatFatSize (100 : UInt64).toNat) 0 := by
  obtain ⟨-, s, -, -, -, hs, hthree, hused⟩ := exists_session_with_directory
  exact ⟨s, hs, (session_copies_agree (by decide) hs).2.1 3 hthree (by decide) hused⟩

end EntropyOS.Fat32
