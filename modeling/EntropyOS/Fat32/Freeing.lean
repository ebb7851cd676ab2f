import EntropyOS.Fat32.FirstFree
import EntropyOS.Foundation.Clearing

/-!
# Freeing the chain of a damaged FAT

The loop that frees a chain follows links that it has not cleared yet.  Cycles
lead it back to an entry it has cleared, where it ends.
-/

namespace EntropyOS.Fat32

open EntropyOS.Foundation

def freed (s : System) (cluster : Nat) : System :=
  { withLink s cluster free with fat32 :=
    if s.fat32.freeClusters ≠ unknownCount then
      { s.fat32 with freeClusters := u32 (s.fat32.freeClusters + 1) }
    else s.fat32 }

section Freed

variable {s : System} (hs : s.device.FaultFree) (cluster : Nat)

theorem freed_fixed (s : System) : (freed s cluster).fat32.fs = s.fat32.fs ∧
    (freed s cluster).fat32.partitionOffset = s.fat32.partitionOffset :=
  recounted_fixed s.fat32 (s.fat32.freeClusters ≠ unknownCount)
    (u32 (s.fat32.freeClusters + 1))

theorem fatWord_freed (s : System) (d : Nat) :
    fatWord (freed s cluster) d = fatWord (withLink s cluster free) d :=
  fatWord_withStatics (freed_fixed cluster s).1 (freed_fixed cluster s).2 d

include hs

theorem freed_faultFree : (freed s cluster).device.FaultFree :=
  withLink_faultFree cluster free hs

theorem freeCluster_faultFree : freeCluster cluster s = some (0, freed s cluster) := by
  rw [freeCluster, Program.bind_of_some (setNextCluster_faultFree cluster free hs),
    if_pos rfl, Program.bind_of_some (modifyFat32_withLink s cluster free _)]
  rfl

end Freed

/-- The entry of a cluster that can be freed without a change of any other. -/
def Fs.Freeable (fs : Fs) (cluster : Nat) : Prop :=
  cluster < 128 * fs.fatSize ∧ fs.BackupFits cluster

theorem freeChain_words {next : Nat → Nat} {first : Nat} {s : System}
    (hclears : Clears Live free next first) (hs : s.device.FaultFree)
    (hsize : s.fat32.fs.fatSize < 4294967296)
    (hentries : ∀ d < 128 * s.fat32.fs.fatSize, fatEntry s d = next d)
    (hmet : ∀ d, Meets next Live first d → s.fat32.fs.Freeable d) :
    ∃ s', freeChain first s = some ((), s') ∧ ∀ d < 128 * s.fat32.fs.fatSize,
      (Meets next Live first d → fatWord s' d = linkedWord (fatWord s d) free) ∧
      (¬ Meets next Live first d → fatWord s' d = fatWord s d) := by
  induction hclears generalizing s with
  | @stop next first hstop =>
      refine ⟨s, ?_, fun d _ => ⟨fun hd => absurd hd.live_first hstop, fun _ => rfl⟩⟩
      rw [freeChain, if_neg hstop]
      rfl
  | @step next first hlive _ ih =>
      obtain ⟨hin, hfits⟩ := hmet first (.here hlive)
      have hsmall : first < 1073741824 := by
        have hend := hlive.2
        simp only [eoc] at hend
        omega
      have hlink : linkOf s first = next first := by
        rw [linkOf_eq_fatEntry s hsmall, hentries first hin]
      have hword : ∀ d < 128 * s.fat32.fs.fatSize, fatWord (freed s first) d =
          if d = first then linkedWord (fatWord s first) free else fatWord s d := by
        intro d hd
        rw [fatWord_freed]
        exact fatWord_withLink hsmall hd hsize hfits
      have hmeets : ∀ d, Meets next Live first d ↔
          d = first ∨ Meets (Function.update next first free) Live (next first) d :=
        fun d => meets_iff_clear (by decide) hlive
      obtain ⟨hfs, -⟩ := freed_fixed first s
      obtain ⟨s', hrun, hafter⟩ := ih (freed_faultFree hs first)
        (by rwa [hfs])
        (by
          intro d hd
          rw [hfs] at hd
          rw [fatEntry, hword d hd, Function.update_apply, ← hentries d hd]
          split
          · exact linkedWord_mod _ _
          · rfl)
        (by
          intro d hd
          rw [hfs]
          exact hmet d ((hmeets d).mpr (.inr hd)))
      refine ⟨s', ?_, fun d hd => ?_⟩
      · rw [freeChain, if_pos hlive,
          Program.bind_of_some (getNextCluster_faultFree hs first), hlink,
          Program.bind_of_some (freeCluster_faultFree hs first)]
        exact hrun
      · rw [hfs] at hafter
        obtain ⟨hyes, hno⟩ := hafter d hd
        rw [hword d hd] at hyes hno
        rw [hmeets d]
        by_cases hlater : Meets (Function.update next first free) Live (next first) d
        · refine ⟨fun _ => ?_, fun hnot => absurd (.inr hlater) hnot⟩
          rw [hyes hlater]
          split
          · next hsame => rw [hsame, linkedWord_linkedWord]
          · rfl
        · rw [hno hlater]
          constructor
          · rintro (rfl | hmeets)
            · exact if_pos rfl
            · exact absurd hmeets hlater
          · exact fun hnot => if_neg fun hsame => hnot (.inl hsame)

/-! ## Freeing what is met -/

/-- Every entry of a cluster leads to a cluster of the volume or ends a chain. -/
def LinksInside (s : System) : Prop :=
  ∀ c, s.fat32.fs.InRange c →
    fatEntry s c < s.fat32.fs.totalClusters + 2 ∨ eoc ≤ fatEntry s c

/--
Started at `first`, the loop ends; the free entries afterwards are those that were
free before and those the loop met, and the other entries are as before.
-/
def FreesMet (s : System) (first : Nat) : Prop :=
  ∃ s', freeChain first s = some ((), s') ∧
    (∀ d < 128 * s.fat32.fs.fatSize, fatEntry s' d = free ↔
      fatEntry s d = free ∨ Meets (fatEntry s) Live first d) ∧
    ∀ d < 128 * s.fat32.fs.fatSize, ¬ Meets (fatEntry s) Live first d →
      fatWord s' d = fatWord s d

theorem frees_met {s : System} (hs : s.device.FaultFree) (hwords : s.fat32.fs.Words)
    (hlarge : s.fat32.fs.totalClusters + 2 ≤ 128 * s.fat32.fs.fatSize)
    (hbackup : s.fat32.fs.BackupFits (min (s.fat32.fs.totalClusters + 1) (eoc - 1)))
    (hlinks : LinksInside s) {first : Nat} (hfirst : s.fat32.fs.InRange first) :
    FreesMet s first := by
  have hdead : ¬ Live free := by decide
  have hclosed : ∀ c, s.fat32.fs.InRange c → Live (fatEntry s c) →
      s.fat32.fs.InRange (fatEntry s c) := by
    intro c hc hlive
    exact ⟨hlive.1, (hlinks c hc).resolve_right (not_le.mpr hlive.2)⟩
  have hclears : Clears Live free (fatEntry s) first := by
    let nodes := (Finset.range (s.fat32.fs.totalClusters + 2)).filter (2 ≤ ·)
    have hnodes : ∀ c, c ∈ nodes ↔ s.fat32.fs.InRange c := by
      intro c
      simp only [nodes, Finset.mem_filter, Finset.mem_range, Fs.InRange, and_comm]
    refine clears_of_closed hdead nodes (fun c hc hlive => ?_) fun _ => ?_
    · exact (hnodes _).mpr (hclosed c ((hnodes c).mp hc) hlive)
    · exact (hnodes first).mpr hfirst
  have hmet : ∀ d, Meets (fatEntry s) Live first d → s.fat32.fs.Freeable d := by
    intro d hd
    have hrange : s.fat32.fs.InRange d :=
      hd.mem {c | s.fat32.fs.InRange c} hclosed hfirst
    have hhigh := hrange.2
    have hend := hd.live_last.2
    exact ⟨by omega, hbackup.mono (by omega)⟩
  obtain ⟨s', hrun, hafter⟩ :=
    freeChain_words hclears hs hwords.fatSize (fun _ _ => rfl) hmet
  refine ⟨s', hrun, fun d hd => ?_, fun d hd => (hafter d hd).2⟩
  by_cases hmeets : Meets (fatEntry s) Live first d
  · refine iff_of_true ?_ (.inr hmeets)
    rw [fatEntry, (hafter d hd).1 hmeets, linkedWord_mod]
    rfl
  · rw [fatEntry, (hafter d hd).2 hmeets]
    exact ⟨.inl, fun h => h.resolve_right hmeets⟩

/-- Freeing one cluster frees another entry of the first FAT as well. -/
theorem not_frees_met_of_wrapped_backup {s : System} (hs : s.device.FaultFree) {fs : Fs}
    (hfs : s.fat32.fs = fs) {c d : Nat} (hlive : Live c) (hstop : ¬ Live (fatEntry s c))
    (hcopies : fs.numFats > 1) (hd : d < 128 * fs.fatSize)
    (hwrap : d + 549755813888 = c + 128 * fs.fatSize) (hne : d ≠ c)
    (hother : fatEntry s d ≠ free) : ¬ FreesMet s c := by
  subst hfs
  rintro ⟨s', hrun, -, hkept⟩
  have hsmall : c < 1073741824 := by
    have hend := hlive.2
    simp only [eoc] at hend
    omega
  rw [freeChain, if_pos hlive, Program.bind_of_some (getNextCluster_faultFree hs c),
    linkOf_eq_fatEntry s hsmall, Program.bind_of_some (freeCluster_faultFree hs c),
    freeChain, if_neg hstop] at hrun
  cases hrun
  have hunmet : ¬ Meets (fatEntry s) Live c d := by
    rintro (_ | ⟨_, htail⟩)
    · exact hne rfl
    · exact hstop htail.live_first
  have hsame := hkept d hd hunmet
  rw [fatWord_freed, fatWord_withLink_wrapped hsmall hcopies hwrap] at hsame
  apply hother
  rw [fatEntry, ← hsame, linkedWord_mod]
  rfl

theorem fatEntry_endMarks (fs : Fs) (d : Nat) :
    fatEntry (mountedOn fs fun _ => endMarks) d = 0x0FFFFFFF := by
  rw [fatEntry, fatWord_mountedOn, endMarks_word (by omega)]

theorem linksInside_endMarks (fs : Fs) :
    LinksInside (mountedOn fs fun _ => endMarks) := by
  intro c _
  rw [fatEntry_endMarks]
  exact .inr (by decide)

/--
Freeing frees what it meets, whatever the FAT holds, on the volumes where the
backup of no cluster wraps, and on no others.
-/
theorem frees_met_iff {fs : Fs} (hwords : fs.Words)
    (hlarge : fs.totalClusters + 2 ≤ 128 * fs.fatSize) :
    (∀ (s : System) (first : Nat), s.device.FaultFree → s.fat32.fs = fs →
      LinksInside s → fs.InRange first → FreesMet s first) ↔
      fs.BackupFits (min (fs.totalClusters + 1) (eoc - 1)) := by
  have hsize := hwords.fatSize
  constructor
  · intro hfrees
    by_contra hwraps
    obtain ⟨hcopies, hwrap⟩ := not_or.mp hwraps
    have heoc : eoc = 268435448 := rfl
    -- `d` is the entry of the first FAT that the backup of the last cluster hits
    obtain ⟨c, hc⟩ : ∃ c, c = min (fs.totalClusters + 1) (eoc - 1) := ⟨_, rfl⟩
    rw [← hc] at hwrap
    obtain ⟨d, hd⟩ : ∃ d, d + 549755813888 = c + 128 * fs.fatSize :=
      ⟨c + 128 * fs.fatSize - 549755813888, by omega⟩
    exact not_frees_met_of_wrapped_backup (mountedOn_faultFree fs fun _ => endMarks)
      (mountedOn_fs fs _) ⟨by omega, by omega⟩ (by rw [fatEntry_endMarks]; decide)
      (not_le.mp hcopies) (by omega) hd (by omega) (by rw [fatEntry_endMarks]; decide)
      (hfrees _ c (mountedOn_faultFree fs _) rfl (linksInside_endMarks fs)
        ⟨by omega, by omega⟩)
  · intro hbackup s first hs hfs hlinks hfirst
    subst hfs
    exact frees_met hs hwords hlarge hbackup hlinks hfirst

/-- A volume whose clusters 5 and 6 link to each other. -/
def loopedDisk (_lba : Nat) : Sector := linkedSector (linkedSector endMarks 5 6) 6 5

theorem frees_met_of_loop :
    FreesMet (mountedOn smallFs loopedDisk) 5 := by
  have hwords : smallFs.Words := ⟨by decide, by decide⟩
  refine (frees_met_iff hwords (by decide)).mpr (by decide) _ 5
    (mountedOn_faultFree _ _) rfl ?_ (by decide)
  intro c _
  rw [fatEntry, fatWord_mountedOn, loopedDisk, linkedSector_link _ _ (by omega),
    linkedSector_link _ _ (by omega), endMarks_word (by omega)]
  split
  · exact .inl (by decide)
  · split
    · exact .inl (by decide)
    · exact .inr (by decide)

/-- A volume of 200 clusters with two FATs of 2^32 - 1 sectors. -/
def hugeFatFs : Fs := Fs.ofBoot (geometryBoot 8 32 2 1630 0xFFFFFFFF).toBuf

theorem hugeFatFs_eq : hugeFatFs = ⟨32, 30, 8, 2, 4294967295, 2, 200, true⟩ := by
  decide +kernel

/-- Freeing cluster 201, which no link leads on from, frees entry 73 as well. -/
theorem other_entry_freed :
    let s := mountedOn hugeFatFs fun _ => endMarks
    ¬ (s.device.FaultFree →
      s.fat32.fs.totalClusters + 2 ≤ 128 * s.fat32.fs.fatSize → LinksInside s →
      s.fat32.fs.InRange 201 → FreesMet s 201) := by
  intro s hclaim
  have hfs : s.fat32.fs = hugeFatFs := rfl
  rw [hugeFatFs_eq] at hfs
  exact not_frees_met_of_wrapped_backup (d := 73) (mountedOn_faultFree _ _) hfs
    (by decide) (by rw [fatEntry_endMarks]; decide) (by decide) (by decide) (by decide)
    (by decide) (by rw [fatEntry_endMarks]; decide)
    (hclaim (mountedOn_faultFree _ _) (by rw [hfs]; decide) (linksInside_endMarks _)
      (by rw [hfs]; decide))

end EntropyOS.Fat32
