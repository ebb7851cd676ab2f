import EntropyOS.Fat32.Calls
import EntropyOS.Fat32.Frames
import EntropyOS.Fat32.Walking

/-!
# Three scans for one name

Looking a name up passes over volume labels.  The scans of the two creating
calls do not, so the three agree unless a label is the first to have the name.
-/

namespace EntropyOS.Fat32

open EntropyOS.Foundation

/-! ## The first entry of a name -/

/-- The entry at `p` is the first in use that has the name. -/
def Volume.FirstNamed (v : Volume) (name : Name) (ps : List Place) (p : Place) :
    Prop :=
  ∃ before after, ps = before ++ p :: after ∧
    (∀ q ∈ before, ¬ (v.entry q).IsEnd ∧
      ((v.entry q).InUse → (v.entry q).name ≠ name)) ∧
    (v.entry p).InUse ∧ (v.entry p).name = name

section FirstNamed

variable {v : Volume} {name : Name} {ps : List Place} {p q : Place}

theorem Volume.firstNamed_nil : ¬ v.FirstNamed name [] p := by
  rintro ⟨before, after, heq, -⟩
  simp at heq

theorem Volume.firstNamed_cons :
    v.FirstNamed name (q :: ps) p ↔
      (q = p ∧ (v.entry q).InUse ∧ (v.entry q).name = name) ∨
      ((¬ (v.entry q).IsEnd ∧ ((v.entry q).InUse → (v.entry q).name ≠ name)) ∧
        v.FirstNamed name ps p) := by
  constructor
  · rintro ⟨before, after, heq, hbefore, hp⟩
    cases before with
    | nil =>
        obtain ⟨rfl, rfl⟩ := List.cons.inj heq
        exact .inl ⟨rfl, hp⟩
    | cons r before =>
        obtain ⟨rfl, rfl⟩ := List.cons.inj heq
        have hfirst := List.forall_mem_cons.mp hbefore
        exact .inr ⟨hfirst.1, before, after, rfl, hfirst.2, hp⟩
  · rintro (⟨rfl, hq⟩ | ⟨hq, before, after, rfl, hbefore, hp⟩)
    · exact ⟨[], ps, rfl, by simp, hq⟩
    · exact ⟨q :: before, after, rfl, List.forall_mem_cons.mpr ⟨hq, hbefore⟩, hp⟩

/-- Only the first entry of the name is found, whatever is skipped. -/
theorem Volume.choose_existing_iff {skip : Nat → Nat → DirEntry → Bool}
    (hskip : v.SkipsOthers skip name ps) (slot : Option Place) :
    v.choose skip name ps slot = .existing p ↔ v.FirstNamed name ps p := by
  induction ps generalizing slot with
  | nil => simp [Volume.choose, Volume.firstNamed_nil]
  | cons q ps ih =>
      have hrest : v.SkipsOthers skip name ps := fun r hr =>
        hskip r (List.mem_cons_of_mem _ hr)
      rw [Volume.firstNamed_cons, Volume.choose]
      by_cases hpass : skip q.1 q.2 (v.entry q) = true
      · obtain ⟨huse, hother⟩ := hskip q List.mem_cons_self hpass
        rw [if_pos hpass, ih hrest]
        simp [huse.1, hother]
      rw [if_neg hpass]
      by_cases hend : (v.entry q).IsEnd
      · simp [hend, DirEntry.InUse]
      by_cases hdeleted : (v.entry q).IsDeleted
      · simp [hend, hdeleted, DirEntry.InUse, ih hrest]
      have huse : (v.entry q).InUse := ⟨hend, hdeleted⟩
      by_cases hname : (v.entry q).name = name
      · simp [hend, hdeleted, huse, hname]
      · simp [hend, hdeleted, huse, hname, ih hrest]

theorem Volume.lookup_named (h : v.lookup name ps = some p) :
    ¬ (v.entry p).HasAttr attrVolumeId ∧ ∃ q, v.FirstNamed name ps q := by
  induction ps with
  | nil => simp [Volume.lookup] at h
  | cons q ps ih =>
      simp only [Volume.firstNamed_cons]
      rw [Volume.lookup] at h
      split_ifs at h with hend hdeleted hlabel hname
      · obtain ⟨hplain, first, hfirst⟩ := ih h
        have hnot : ¬ (v.entry q).InUse := fun huse => huse.2 hdeleted
        exact ⟨hplain, first, .inr ⟨⟨hend, fun huse => absurd huse hnot⟩, hfirst⟩⟩
      · obtain ⟨hplain, first, hfirst⟩ := ih h
        refine ⟨hplain, ?_⟩
        by_cases hname : (v.entry q).name = name
        · exact ⟨q, .inl ⟨rfl, ⟨hend, hdeleted⟩, hname⟩⟩
        · exact ⟨first, .inr ⟨⟨hend, fun _ => hname⟩, hfirst⟩⟩
      · cases h
        exact ⟨hlabel, _, .inl ⟨rfl, ⟨hend, hdeleted⟩, hname⟩⟩
      · obtain ⟨hplain, first, hfirst⟩ := ih h
        exact ⟨hplain, first, .inr ⟨⟨hend, fun _ => hname⟩, hfirst⟩⟩

theorem Volume.lookup_first (hfirst : v.FirstNamed name ps p)
    (hplain : ¬ (v.entry p).HasAttr attrVolumeId) :
    v.lookup name ps = some p := by
  induction ps with
  | nil => exact absurd hfirst Volume.firstNamed_nil
  | cons q ps ih =>
      rw [Volume.lookup]
      rcases Volume.firstNamed_cons.mp hfirst with ⟨rfl, huse, hname⟩ | ⟨hq, hrest⟩
      · rw [if_neg huse.1, if_neg huse.2, if_neg hplain, if_pos hname]
      · rw [if_neg hq.1, ih hrest]
        split_ifs with hdeleted hlabel hname
        · rfl
        · rfl
        · exact absurd hname (hq.2 ⟨hq.1, hdeleted⟩)
        · rfl

end FirstNamed

/-! ## What the calls make of it -/

/-- `fat32_find_entry` answers with the entry stored at `p`. -/
def Finds (s : System) (directory : Nat) (filename : List UInt8) (p : Place) :
    Prop :=
  ∃ entry, Returns (findEntry directory (nameToFat filename)) s
    (some ⟨entry, p.1, p.2⟩)

/-- The scan of `fat32_write_file_in` ends on an existing entry, at `p`. -/
def Reuses (s : System) (parent : Nat) (filename : List UInt8) (p : Place) :
    Prop :=
  ∃ buffer, Returns (findSlot skipNone (nameToFat filename) parent none) s
    (.existing ⟨p.1, p.2, buffer⟩)

/-- `fat32_create_directory_in` refuses, and says that the name is taken. -/
def AlreadyExists (s : System) (parent : Nat) (dirname : List UInt8) : Prop :=
  ∃ s', createDirectoryIn parent dirname s = some (-1, s') ∧
    s'.console = "FAT32: Directory already exists\n" :: s.console

/-- The creating calls meet an entry exactly where the lookup does. -/
structure ScansAgree (s : System) (parent : Nat) (filename : List UInt8) :
    Prop where
  write : ∀ p, Reuses s parent filename p ↔ Finds s parent filename p
  create : AlreadyExists s parent filename ↔ ∃ p, Finds s parent filename p

def Volume.LabelFirst (v : Volume) (name : Name) (ps : List Place) : Prop :=
  ∃ p, v.FirstNamed name ps p ∧ (v.entry p).HasAttr attrVolumeId

private def NotRefused (s s' : System) : Prop :=
  ∃ new, s'.console = new ++ s.console ∧
    "FAT32: Directory already exists\n" ∉ new

private theorem notRefused_stepwise :
    Stepwise (· ≠ "FAT32: Directory already exists\n") NotRefused where
  refl s := ⟨[], rfl, by simp⟩
  trans := by
    rintro s s' s'' ⟨new, hnew, hsilent⟩ ⟨new', hnew', hsilent'⟩
    refine ⟨new' ++ new, ?_, ?_⟩
    · rw [hnew', hnew, List.append_assoc]
    · simp [hsilent, hsilent']
  text s message hother := ⟨[message], rfl, by simpa using hother.symm⟩
  tick s := ⟨[], rfl, by simp⟩
  put s lba sector := ⟨[], rfl, by simp⟩
  mark s lba := ⟨[], rfl, by simp⟩
  fat32 s st := ⟨[], rfl, by simp⟩
  readFailed := by decide
  writeFailed := by decide

private theorem storeDirectory_notRefused (name : Name) (parent : Nat)
    (slot : Slot) : Within NotRefused (storeDirectory name parent slot) := by
  have h := notRefused_stepwise
  apply h.within_bind h.within_allocateCluster
  intro cluster
  apply Within.ite
  · exact h.within_bind (h.within_text (by decide)) fun _ => h.within_pure _
  apply h.within_bind h.within_getFs
  intro fs
  apply h.within_bind (h.within_writeCluster _ _)
  intro status
  apply Within.ite
  · apply h.within_bind (h.within_text (by decide))
    intro _
    exact h.within_bind (h.within_freeCluster _) fun _ => h.within_pure _
  apply h.within_bind (h.within_writeCluster _ _)
  intro status
  apply Within.ite
  · exact h.within_bind (h.within_text (by decide)) fun _ => h.within_pure _
  apply h.within_bind (h.within_updateFsinfoIfKnown _)
  intro _
  exact h.within_bind (h.within_flushIfSata (by decide)) fun _ => h.within_pure _

section Agreement

variable {s : System} (hs : s.device.FaultFree) {parent last : Nat} {l : List Nat}
  (hwalk : Walk (linkOf s) Live parent l last) (filename : List UInt8)

include hs hwalk

private theorem finds_iff (p : Place) :
    Finds s parent filename p ↔
      (diskVolume s).lookup (nameToFat filename) (s.fat32.fs.places l) = some p := by
  have hfind := findEntry_walk hs hwalk (nameToFat filename)
  constructor
  · rintro ⟨entry, hreturns⟩
    have hsame := hreturns.unique ⟨s, hfind⟩
    obtain ⟨q, hq, hlocate⟩ := Option.map_eq_some_iff.mp hsame.symm
    obtain ⟨-, hcluster, hindex⟩ := Located.mk.inj hlocate
    rw [hq, show q = p from Prod.ext hcluster hindex]
  · intro hlookup
    rw [hlookup] at hfind
    exact ⟨_, s, hfind⟩

private theorem reuses_iff (p : Place) :
    Reuses s parent filename p ↔
      (diskVolume s).FirstNamed (nameToFat filename) (s.fat32.fs.places l) p := by
  have hscan := findSlot_walk hs hwalk skipNone (nameToFat filename) none
  rw [← Volume.choose_existing_iff (skipsOthers_none _ _ _) none]
  constructor
  · rintro ⟨buffer, hreturns⟩
    have hsame := hreturns.unique ⟨s, hscan⟩
    cases hchoice : (diskVolume s).choose skipNone (nameToFat filename)
        (s.fat32.fs.places l) none with
    | free slot =>
        rw [hchoice] at hsame
        cases hsame
    | existing q =>
        rw [hchoice] at hsame
        obtain ⟨hcluster, hindex, -⟩ := Slot.mk.inj (SlotSearch.existing.inj hsame)
        rw [show q = p from Prod.ext hcluster.symm hindex.symm]
  · intro hchoice
    rw [hchoice] at hscan
    exact ⟨_, s, hscan⟩

private theorem alreadyExists_iff (hinit : s.fat32.fs.initialized = true) :
    AlreadyExists s parent filename ↔ ∃ p,
      (diskVolume s).FirstNamed (nameToFat filename) (s.fat32.fs.places l) p := by
  have hscan := findSlot_walk hs hwalk (skipDots s.fat32.fs.rootDirCluster)
    (nameToFat filename) none
  rw [Option.map_none] at hscan
  have hfirst := fun p => Volume.choose_existing_iff (p := p)
    (skipsOthers_dots (diskVolume s) s.fat32.fs.rootDirCluster filename
      (s.fat32.fs.places l)) none
  simp only [← hfirst]
  unfold AlreadyExists createDirectoryIn
  rw [Program.bind_of_some (getFs_apply s)]
  simp only [hinit, if_true]
  rw [Program.bind_of_some hscan]
  cases hchoice : (diskVolume s).choose (skipDots s.fat32.fs.rootDirCluster)
      (nameToFat filename) (s.fat32.fs.places l) none with
  | existing p =>
      constructor
      · exact fun _ => ⟨p, rfl⟩
      · exact fun _ => ⟨_, rfl, rfl⟩
  | free slot =>
      have hnone : ¬ ∃ p, Choice.free slot = .existing p := by simp
      simp only [hnone, iff_false]
      rintro ⟨s', hrun, hconsole⟩
      cases slot with
      | none =>
          cases hrun
          simp at hconsole
      | some p =>
          obtain ⟨new, hnew, hsilent⟩ := storeDirectory_notRefused _ _ _ _ _ _ hrun
          rw [hconsole] at hnew
          have hone := List.append_cancel_right
            (show ["FAT32: Directory already exists\n"] ++ s.console =
              new ++ s.console from hnew)
          simp [← hone] at hsilent

/--
With up to eight sectors in a cluster no scan leaves its buffer, and the three agree
exactly when no label comes first under the name.
-/
theorem scansAgree_iff (hinit : s.fat32.fs.initialized = true)
    (hsize : s.fat32.fs.sectorsPerCluster ≤ 8) :
    (∀ k, ClusterIndex s.fat32.fs k → k < 4096) ∧
    (ScansAgree s parent filename ↔
      ¬ (diskVolume s).LabelFirst (nameToFat filename) (s.fat32.fs.places l)) := by
  refine ⟨(clusterIndex_iff _).mpr hsize, ?_⟩
  constructor
  · rintro ⟨hwrite, -⟩ ⟨p, hfirst, hlabel⟩
    have hreuses := (reuses_iff hs hwalk filename p).mpr hfirst
    have hlookup := (finds_iff hs hwalk filename p).mp ((hwrite p).mp hreuses)
    exact (Volume.lookup_named hlookup).1 hlabel
  · intro hnone
    have hsame : ∀ p, (diskVolume s).FirstNamed (nameToFat filename)
          (s.fat32.fs.places l) p ↔
        (diskVolume s).lookup (nameToFat filename) (s.fat32.fs.places l) =
          some p := by
      intro p
      constructor
      · exact fun hfirst => Volume.lookup_first hfirst
          fun hlabel => hnone ⟨p, hfirst, hlabel⟩
      · intro hlookup
        obtain ⟨-, q, hfirst⟩ := Volume.lookup_named hlookup
        have hq := Volume.lookup_first hfirst
          fun hlabel => hnone ⟨q, hfirst, hlabel⟩
        rw [hlookup] at hq
        rwa [Option.some.inj hq]
    constructor
    · intro p
      rw [reuses_iff hs hwalk, finds_iff hs hwalk, hsame]
    · rw [alreadyExists_iff hs hwalk filename hinit]
      simp only [finds_iff hs hwalk, hsame]

end Agreement

/-- A root directory with the volume label `A` and nothing else. -/
def labelledDisk : System :=
  { System.startup fun lba =>
      if lba = 40 then Sector.ofBuf (setEntry (fun _ => 0) 0
        (DirEntry.make (nameToFat [0x41]) attrVolumeId 0 0))
      else Sector.zero with
    fat32 := ⟨⟨32, 40, 1, 2, 1, 1, 100, true⟩, 0, unknownCount⟩ }

private theorem labelledDisk_faultFree : labelledDisk.device.FaultFree :=
  ⟨rfl, rfl⟩

private theorem labelledDisk_walk : Walk (linkOf labelledDisk) Live 2 [2] 0 := by
  have hlink : linkOf labelledDisk 2 = 0 := by decide
  apply Walk.step (by decide)
  rw [hlink]
  exact Walk.stop (by decide)

theorem scansAgree_iff_labelledDisk :
    (∀ k, ClusterIndex labelledDisk.fat32.fs k → k < 4096) ∧
    (ScansAgree labelledDisk 2 [0x42] ↔
      ¬ (diskVolume labelledDisk).LabelFirst (nameToFat [0x42])
        (labelledDisk.fat32.fs.places [2])) :=
  scansAgree_iff labelledDisk_faultFree labelledDisk_walk [0x42] rfl (by decide)

/-- A write reuses the label, which no lookup finds. -/
theorem scans_disagree :
    ¬ ∀ (s : System) (parent last : Nat) (l : List Nat) (filename : List UInt8),
      s.device.FaultFree → s.fat32.fs.initialized = true →
      Walk (linkOf s) Live parent l last → Ascii filename →
      ScansAgree s parent filename := by
  intro hagree
  have hs := labelledDisk_faultFree
  have hwrite := (hagree labelledDisk 2 0 [2] [0x41] hs rfl labelledDisk_walk
    (by simp [Ascii])).write (2, 0)
  have hfirst : (diskVolume labelledDisk).FirstNamed (nameToFat [0x41])
      (labelledDisk.fat32.fs.places [2]) (2, 0) :=
    ⟨[], _, rfl, by simp, by decide, by decide⟩
  have hreuses := (reuses_iff hs labelledDisk_walk [0x41] (2, 0)).mpr hfirst
  have hlookup := (finds_iff hs labelledDisk_walk [0x41] (2, 0)).mp
    (hwrite.mp hreuses)
  exact (Volume.lookup_named hlookup).1 (by decide)

end EntropyOS.Fat32
