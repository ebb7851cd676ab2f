import EntropyOS.Fat32.Change

/-!
# The calls on a volume

What each of the four calls that change a volume does to it, case by case.
-/

namespace EntropyOS.Fat32

open EntropyOS.Foundation

/-- The clusters of the live directory that starts at `cluster`. -/
structure Volume.Directory (v : Volume) (cluster : Nat) (l : List Nat) :
    Prop where
  live : ∃ n, v.Reach n ∧ v.IsDir n ∧ v.first n = cluster
  chain : v.Chain cluster l

theorem Volume.Directory.orderly {v : Volume} {cluster : Nat} {l : List Nat}
    (h : v.Directory cluster l) (hv : v.WellFormed) : v.Orderly (places l) := by
  obtain ⟨n, hn, hdir, rfl⟩ := h.live
  exact hv.orderly n l hn hdir h.chain

/-- What is stored under a name: the chain of the entry, or nothing. -/
def Volume.Held (v : Volume) (l : List Nat) (name : Name) (old : List Nat) :
    Prop :=
  (∃ p ∈ places l, (v.entry p).InUse ∧ (v.entry p).name = name ∧
    v.Chain (v.entry p).firstCluster old) ∨
  ((∀ p ∈ places l, (v.entry p).InUse → (v.entry p).name ≠ name) ∧ old = [])

/-! ## Names and entries -/

theorem Volume.setData_entry (v : Volume) (c : Nat) (buf : Buf) {q : Place}
    (hq : q.2 < 128) :
    (v.setData c buf).entry q =
      if q.1 = c then entryAt buf q.2 else v.entry q := by
  simp only [Volume.entry, Volume.setData, Function.update_apply]
  split
  · exact entryAt_clip buf (by omega)
  · rfl

@[simp] theorem Volume.finish_entry (v : Volume) (nextFree : Nat) (q : Place) :
    (v.finish nextFree).entry q = v.entry q := by
  simp [Volume.entry]

@[simp] theorem Volume.release_entry (v : Volume) (l : List Nat) (q : Place) :
    (v.release l).entry q = v.entry q := by
  simp [Volume.entry]

theorem make_inUse {filename : List UInt8} (hascii : Ascii filename)
    (attr : UInt8) (cluster size : Nat) :
    (DirEntry.make (nameToFat filename) attr cluster size).InUse := by
  obtain ⟨hzero, hdeleted, -⟩ := nameToFat_ordinary hascii
  exact ⟨hzero, hdeleted⟩

theorem not_isDot_of_name {filename : List UInt8} {entry : DirEntry}
    (hname : entry.name = nameToFat filename) : ¬ entry.IsDot := by
  have hdot := nameToFat_zero_ne_dot filename
  rw [← hname] at hdot
  rintro (heq | heq)
  · exact hdot (by rw [heq]; rfl)
  · exact hdot (by rw [heq]; rfl)

theorem make_not_isDot (filename : List UInt8) (attr : UInt8)
    (cluster size : Nat) :
    ¬ (DirEntry.make (nameToFat filename) attr cluster size).IsDot :=
  not_isDot_of_name rfl

theorem inUse_of_isDot {entry : DirEntry} (h : entry.IsDot) : entry.InUse := by
  simp only [DirEntry.InUse, DirEntry.IsEnd, DirEntry.IsDeleted]
  rcases h with h | h
  · rw [h]
    decide
  · rw [h]
    decide

theorem skipsOthers_none (v : Volume) (name : Name) (ps : List Place) :
    v.SkipsOthers skipNone name ps := by
  intro p _ h
  simp [skipNone] at h

theorem skipsOthers_dots (v : Volume) (root : Nat) (dirname : List UInt8)
    (ps : List Place) :
    v.SkipsOthers (skipDots root) (nameToFat dirname) ps := by
  intro p _ h
  have hdot : (v.entry p).IsDot := by
    simp only [skipDots, decide_eq_true_eq] at h
    rcases h.2 with h | h
    · exact .inl h.2
    · exact .inr h.2
  exact ⟨inUse_of_isDot hdot, fun heq => not_isDot_of_name heq hdot⟩

/-! ## Where a new entry goes -/

/-- The place a creating call stores at, and the chain it gives back first. -/
inductive Volume.Target (v : Volume) (l : List Nat) (name : Name) :
    Place → List Nat → Prop
  | existing {p : Place} {old : List Nat} :
      p ∈ places l → (v.entry p).InUse → (v.entry p).name = name →
      v.Chain (v.entry p).firstCluster old → v.Target l name p old
  | free {p : Place} :
      v.FirstFree (places l) p →
      (∀ q ∈ places l, (v.entry q).InUse → (v.entry q).name ≠ name) →
      v.Target l name p []

namespace Volume.Target

variable {v : Volume} {l old : List Nat} {name : Name} {p : Place}

theorem mem (h : v.Target l name p old) : p ∈ places l := by
  cases h with
  | existing hp => exact hp
  | free hp =>
      obtain ⟨before, after, heq, -⟩ := hp
      simp [heq]

theorem held (h : v.Target l name p old) : v.Held l name old := by
  cases h with
  | existing hp huse hname hold => exact .inl ⟨p, hp, huse, hname, hold⟩
  | free _ hnames => exact .inr ⟨hnames, rfl⟩

theorem place (h : v.Target l name p old) :
    (v.entry p).InUse ∨ v.FirstFree (places l) p := by
  cases h with
  | existing _ huse => exact .inl huse
  | free hp => exact .inr hp

theorem inUse_iff (h : v.Target l name p old) :
    (v.entry p).InUse ↔ (v.entry p).InUse ∧ (v.entry p).name = name ∧
      v.Chain (v.entry p).firstCluster old := by
  cases h with
  | existing _ huse hname hold => simp [huse, hname, hold]
  | free hp =>
      obtain ⟨before, after, -, hnot, -⟩ := hp
      simp [hnot]

theorem unused (h : v.Target l name p old) (hnot : ¬ (v.entry p).InUse) :
    old = [] := by
  cases h with
  | existing _ huse => exact absurd huse hnot
  | free => rfl

theorem others (h : v.Target l name p old) (horder : v.Orderly (places l)) :
    ∀ q ∈ places l, q ≠ p → (v.entry q).InUse → (v.entry q).name ≠ name := by
  intro q hq hne huse heq
  cases h with
  | existing hp hpUse hname =>
      exact hne (horder.unique q hq p hp huse hpUse (heq.trans hname.symm))
  | free _ hnames => exact hnames q hq huse heq

end Volume.Target

theorem Volume.Held.unique {v : Volume} {l : List Nat} {name : Name}
    {old old' : List Nat} (horder : v.Orderly (places l))
    (h : v.Held l name old) (h' : v.Held l name old') : old = old' := by
  rcases h with ⟨p, hp, huse, hname, hold⟩ | ⟨hnone, rfl⟩
  · rcases h' with ⟨q, hq, huse', hname', hold'⟩ | ⟨hnone, -⟩
    · obtain rfl := horder.unique p hp q hq huse huse' (hname.trans hname'.symm)
      exact hold.unique hold'
    · exact absurd hname (hnone p hp huse)
  · rcases h' with ⟨q, hq, huse', hname', -⟩ | ⟨-, rfl⟩
    · exact absurd hname' (hnone q hq huse')
    · rfl

/-! ## The end of the call -/

private theorem readSector_ensures (lba : Nat) (u : System) :
    Ensures (readSector lba) u fun _ _ => True := by
  obtain ⟨sector, w, hrun⟩ :=
    blockReadSector_ends u (u64 (u.fat32.partitionOffset + lba))
  exact ⟨sector, w, hrun, trivial⟩

private theorem writeSector_ensures (lba : Nat) (sector : Sector) (u : System) :
    Ensures (writeSector lba sector) u fun _ _ => True := by
  obtain ⟨status, w, hrun⟩ :=
    blockWriteSector_ends u (u64 (u.fat32.partitionOffset + lba)) sector
  exact ⟨status, w, hrun, trivial⟩

private theorem updateFsinfo_ensures (freeCount nextFree : Nat) (u : System) :
    Ensures (updateFsinfo freeCount nextFree) u fun _ _ => True := by
  refine Ensures.bind (readSector_ensures 1 u) fun read w _ => ?_
  cases read with
  | none => exact Ensures.pure trivial
  | some sector =>
      by_cases hsignature : signatureAt sector
      · refine Ensures.if_neg (not_not.mpr hsignature) ?_
        refine Ensures.bind (writeSector_ensures _ _ w) fun status x _ => ?_
        by_cases hstatus : status = 0
        · refine Ensures.if_neg (not_not.mpr hstatus) ?_
          exact Ensures.bind (writeSector_ensures _ _ x) fun _ _ _ =>
            Ensures.pure trivial
        · exact Ensures.if_pos hstatus (Ensures.pure trivial)
      · exact Ensures.if_pos hsignature (Ensures.pure trivial)

private theorem flushCache_ensures (warning : String) (count : Nat) (u : System) :
    Ensures (flushCache warning count) u fun _ _ => True := by
  induction count generalizing u with
  | zero => exact Ensures.pure trivial
  | succ count ih =>
      have hflush : Ensures sataFlushCache u fun _ _ => True := by
        refine Ensures.bind (Ensures.of_some rfl) fun x y _ => ?_
        by_cases hsata : x.device.sataPresent = true
        · refine Ensures.if_pos hsata ?_
          refine Ensures.bind (Ensures.of_some (transferFails_apply 0)) fun fails w _ => ?_
          by_cases hfails : fails = true
          · exact Ensures.if_pos hfails (Ensures.pure trivial)
          · exact Ensures.if_neg hfails (Ensures.pure trivial)
        · exact Ensures.if_neg hsata (Ensures.pure trivial)
      refine Ensures.bind hflush fun status w _ => ?_
      by_cases hstatus : status = 0
      · exact Ensures.if_neg (not_not.mpr hstatus) (ih w)
      · exact Ensures.if_pos hstatus
          (Ensures.bind (Ensures.of_some rfl) fun _ x _ => ih x)

/-- What a creating call does after the directory write. -/
def finishCall (nextFree : Nat) (warning : String) : Program System Int := do
  updateFsinfoIfKnown nextFree
  flushIfSata warning
  return 0

theorem finishCall_ensures (nextFree : Nat) (warning : String) (u : System) :
    Ensures (finishCall nextFree warning) u fun r _ => r = 0 := by
  have hinfo : Ensures (updateFsinfoIfKnown nextFree) u fun _ _ => True := by
    refine Ensures.bind (Ensures.of_some rfl) fun st w _ => ?_
    by_cases hknown : st.freeClusters ≠ unknownCount
    · exact Ensures.if_pos hknown (Ensures.bind (updateFsinfo_ensures _ _ w)
        fun _ _ _ => Ensures.pure trivial)
    · exact Ensures.if_neg hknown (Ensures.pure trivial)
  refine Ensures.bind hinfo fun _ w _ => ?_
  have hflush : Ensures (flushIfSata warning) w fun _ _ => True := by
    refine Ensures.bind (Ensures.of_some rfl) fun x y _ => ?_
    by_cases hsata : x.device.sataPresent = true
    · exact Ensures.if_pos hsata (flushCache_ensures warning 5 y)
    · exact Ensures.if_neg hsata (Ensures.pure trivial)
  exact Ensures.bind hflush fun _ _ _ => Ensures.pure rfl

theorem finishCall_returns (nextFree : Nat) (warning : String) (u : System) :
    Returns (finishCall nextFree warning) u 0 := by
  obtain ⟨r, w, hrun, rfl⟩ := finishCall_ensures nextFree warning u
  exact ⟨w, hrun⟩

theorem finishCall_executes {v : Volume} (hinfo : v.InfoApart) (nextFree : Nat)
    (warning : String) :
    Executes v (finishCall nextFree warning) 0 (v.finish nextFree) := by
  refine Runs.bind (updateFsinfoIfKnown_executes hinfo _) ?_
  exact Runs.bind (flushIfSata_executes _ _) (Runs.pure _ _)

/-! ## `fat32_write_file_in` -/

/-- The clusters a write takes once the old chain is free. -/
def Volume.taken (v : Volume) (old : List Nat) (size : Nat) : List Nat :=
  (v.release old).freeList.take (clustersFor size)

def Volume.written (v : Volume) (p : Place) (old : List Nat) (name : Name)
    (data : List UInt8) : Volume :=
  let cs := v.taken old data.length
  let entry := DirEntry.make name attrArchive (cs.headD 0) data.length
  (((v.release old).fill cs data 0).setData p.1
    (setEntry (v.data p.1) p.2 entry)).finish (u32 (cs.getLastD 0 + 1))

def Volume.exhausted (v : Volume) (old : List Nat) (data : List UInt8) : Volume :=
  (v.release old).fill (v.taken old data.length) data 0

section Write

variable {v : Volume} {l old : List Nat} {p : Place} {name : Name}
  {data : List UInt8}

private theorem writeData_taken (hlayout : v.fs.Layout)
    (hsmall : ∀ c ∈ (v.taken old data.length).dropLast, c < 268435456)
    (hlast : (v.taken old data.length).length = clustersFor data.length ∨
      ∀ c ∈ v.taken old data.length, c < 268435456) :
    Executes (v.release old) (writeData data 0 0)
      (if (v.taken old data.length).length = clustersFor data.length then
        some (if 0 = 0 then (v.taken old data.length).headD 0 else 0,
          (v.taken old data.length).getLastD 0)
      else none)
      ((v.release old).fill (v.taken old data.length) data 0) :=
  writeData_executes (by simpa using hlayout) data 0 (.inl rfl) rfl hsmall hlast

private theorem storeFile_leads (hlayout : v.fs.Layout)
    (hp : v.fs.InRange p.1)
    (hsmall : ∀ c ∈ (v.taken old data.length).dropLast, c < 268435456)
    (hroom : (v.taken old data.length).length = clustersFor data.length) :
    Leads Represents (v.release old) (storeFile name data (v.slotAt p))
      (((v.release old).fill (v.taken old data.length) data 0).setData p.1
        (setEntry (v.data p.1) p.2 (DirEntry.make name attrArchive
          ((v.taken old data.length).headD 0) data.length)))
      (finishCall (u32 ((v.taken old data.length).getLastD 0 + 1))
        "FAT32: warning — sata_flush_cache failed after write\n") := by
  have hwrite := writeData_taken hlayout hsmall (.inl hroom)
  rw [if_pos hroom, if_pos rfl] at hwrite
  refine Leads.bind hwrite ?_
  have hcluster : ((v.release old).fill (v.taken old data.length) data 0).fs.InRange
      (v.slotAt p).cluster := by
    simpa [Volume.slotAt] using hp
  exact Leads.bind (writeCluster_executes _ _ hcluster)
    (Leads.if_neg (by decide) (Leads.refl _ _))

private theorem storeFile_exhausted (hlayout : v.fs.Layout)
    (hsmall : ∀ c ∈ v.taken old data.length, c < 268435456)
    (hroom : (v.taken old data.length).length ≠ clustersFor data.length) :
    Executes (v.release old) (storeFile name data (v.slotAt p)) (-1)
      (v.exhausted old data) := by
  have hwrite := writeData_taken hlayout
    (fun c hc => hsmall c (List.mem_of_mem_dropLast hc)) (.inr hsmall)
  rw [if_neg hroom] at hwrite
  exact Runs.bind hwrite (Runs.pure _ _)

/-- The directory scan, and the chain given back, before anything is stored. -/
private theorem writeFileIn_scan {parent : Nat} (filename : List UInt8)
    (hlayout : v.fs.Layout) (hv : v.WellFormed) (hdir : v.Directory parent l) :
    ((∀ q ∈ places l, (v.entry q).InUse ∧
        (v.entry q).name ≠ nameToFat filename) ∧
      ∀ data, Executes v (writeFileIn parent filename data) (-1) v) ∨
    ∃ p old, v.Target l (nameToFat filename) p old ∧
      ∀ data, Leads Represents v (writeFileIn parent filename data)
        (v.release old) (storeFile (nameToFat filename) data (v.slotAt p)) := by
  have horder := hdir.orderly hv
  obtain ⟨last, hwalk, -⟩ := hdir.chain.ends
  have hscan := findSlot_executes hlayout skipNone hwalk hdir.chain.inRange
    (nameToFat filename) none
  cases hchoice : v.choose skipNone (nameToFat filename) (places l) none with
  | existing p =>
      right
      obtain ⟨hp, huse, hname⟩ := Volume.choose_existing hchoice
      obtain ⟨n, hn, hisDir, rfl⟩ := hdir.live
      have hreach : v.Reach (.entry p) := .child hn
        ⟨hisDir, ⟨l, hdir.chain, hp⟩, huse, not_isDot_of_name hname⟩
      obtain ⟨old, hold⟩ := hv.chain _ hreach
      obtain ⟨last', hwalk', -⟩ := hold.ends
      refine ⟨p, old, .existing hp huse hname hold, ?_⟩
      intro data
      refine Leads.bind (getFs_executes v) (Leads.if_pos hlayout.initialized ?_)
      refine Leads.bind hscan ?_
      rw [hchoice]
      exact Leads.bind (freeChain_executes hwalk' fun c hc => (hold.inRange c hc).2)
        (Leads.refl _ _)
  | free slot =>
      obtain ⟨hnames, -, hfull, hfirst⟩ := Volume.choose_free horder
        (skipsOthers_none v _ _) hchoice
      cases slot with
      | none =>
          left
          have huse := hfull rfl rfl
          refine ⟨fun q hq => ⟨huse q hq, hnames q hq (huse q hq)⟩, ?_⟩
          intro data
          refine Runs.bind (getFs_executes v) (Runs.if_pos hlayout.initialized ?_)
          refine Runs.bind hscan ?_
          rw [hchoice]
          exact Runs.bind (text_executes v _) (Runs.pure _ _)
      | some p =>
          right
          refine ⟨p, [], .free (hfirst rfl p rfl) hnames, ?_⟩
          intro data
          refine Leads.bind (getFs_executes v) (Leads.if_pos hlayout.initialized ?_)
          refine Leads.bind hscan ?_
          rw [hchoice]
          exact Leads.refl _ _

/--
The three ways a write ends: the directory is full, the clusters suffice, or
they run out.  What is on the volume after the second is known where FSInfo is
written to its own sectors.
-/
theorem writeFileIn_cases {parent : Nat} (filename : List UInt8)
    (hlayout : v.fs.Layout) (hv : v.WellFormed) (hdir : v.Directory parent l) :
    ((∀ q ∈ places l, (v.entry q).InUse ∧
        (v.entry q).name ≠ nameToFat filename) ∧
      ∀ data, Executes v (writeFileIn parent filename data) (-1) v) ∨
    ∃ p old, v.Target l (nameToFat filename) p old ∧
      (∀ data, (∀ c ∈ (v.taken old data.length).dropLast, c < 268435456) →
        (v.taken old data.length).length = clustersFor data.length →
        (∀ s, Represents s v → Returns (writeFileIn parent filename data) s 0) ∧
        (v.InfoApart → Executes v (writeFileIn parent filename data) 0
          (v.written p old (nameToFat filename) data))) ∧
      (∀ data, (∀ c ∈ v.taken old data.length, c < 268435456) →
        (v.taken old data.length).length ≠ clustersFor data.length →
        Executes v (writeFileIn parent filename data) (-1)
          (v.exhausted old data)) := by
  rcases writeFileIn_scan filename hlayout hv hdir with
    hfull | ⟨p, old, htarget, hstore⟩
  · exact .inl hfull
  · have hp := hdir.chain.inRange p.1 (mem_places.mp htarget.mem).1
    refine .inr ⟨p, old, htarget, fun data hsmall hroom => ?_,
      fun data hsmall hroom => ?_⟩
    · have hleads := (hstore data).trans (storeFile_leads hlayout hp hsmall hroom)
      exact ⟨hleads.returns (finishCall_returns _ _), fun hinfo => hleads.runs
        (finishCall_executes (((hinfo.release old).fill _ _ _).setData _ _) _ _)⟩
    · exact (hstore data).runs (storeFile_exhausted hlayout hsmall hroom)

end Write

/-! ## `fat32_create_directory_in` -/

/-- The volume after a new directory got the cluster `c`. -/
def Volume.created (v : Volume) (p : Place) (c parent : Nat) (name : Name) :
    Volume :=
  let dotDot := if parent = v.fs.rootDirCluster then 0 else parent
  let entry := DirEntry.make name attrDirectory c 0
  (((v.take c).setData c (dotEntries c dotDot)).setData p.1
    (setEntry (v.data p.1) p.2 entry)).finish (u32 (c + 1))

section Create

variable {v : Volume} {l : List Nat} {p : Place} {name : Name}

theorem storeDirectory_created (hlayout : v.fs.Layout)
    (hp : v.fs.InRange p.1) {c : Nat} {rest : List Nat}
    (hfree : v.freeList = c :: rest) (parent : Nat) :
    (∀ s, Represents s v →
      Returns (storeDirectory name parent (v.slotAt p)) s 0) ∧
    (v.InfoApart → Executes v (storeDirectory name parent (v.slotAt p)) 0
      (v.created p c parent name)) := by
  have hmem : c ∈ v.freeList := by simp [hfree]
  have hc := (Volume.mem_freeList.mp hmem).1
  have hlow := hc.1
  have hleads : Leads Represents v (storeDirectory name parent (v.slotAt p))
      (((v.take c).setData c (dotEntries c
        (if parent = v.fs.rootDirCluster then 0 else parent))).setData p.1
        (setEntry (v.data p.1) p.2 (DirEntry.make name attrDirectory c 0)))
      (finishCall (u32 (c + 1))
        "FAT32: warning — sata_flush_cache failed after mkdir\n") := by
    refine Leads.bind (allocateCluster_executes hlayout hfree)
      (Leads.if_neg (by omega) ?_)
    refine Leads.bind (getFs_executes _) ?_
    refine Leads.bind (writeCluster_executes _ _ (by simpa using hc))
      (Leads.if_neg (by decide) ?_)
    exact Leads.bind (writeCluster_executes _ _ (by simpa [Volume.slotAt] using hp))
      (Leads.if_neg (by decide) (Leads.refl _ _))
  exact ⟨hleads.returns (finishCall_returns _ _), fun hinfo => hleads.runs
    (finishCall_executes (((hinfo.take c).setData _ _).setData _ _) _ _)⟩

theorem storeDirectory_full (hlayout : v.fs.Layout)
    (hfree : v.freeList = []) (parent : Nat) (slot : Slot) :
    Executes v (storeDirectory name parent slot) (-1) v := by
  refine Runs.bind (allocateCluster_full hlayout hfree)
    (Runs.if_pos (by decide) ?_)
  exact Runs.bind (text_executes v _) (Runs.pure _ _)

theorem createDirectoryIn_cases {parent : Nat} (dirname : List UInt8)
    (hinfo : v.InfoApart) (hlayout : v.fs.Layout) (hv : v.WellFormed)
    (hdir : v.Directory parent l) :
    (((∃ q ∈ places l, (v.entry q).InUse ∧
          (v.entry q).name = nameToFat dirname) ∨
        (∀ q ∈ places l, (v.entry q).InUse) ∨ v.freeList = []) ∧
      Executes v (createDirectoryIn parent dirname) (-1) v) ∨
    ∃ p c rest, v.Target l (nameToFat dirname) p [] ∧
      ¬ (v.entry p).InUse ∧ v.freeList = c :: rest ∧
      Executes v (createDirectoryIn parent dirname) 0
        (v.created p c parent (nameToFat dirname)) := by
  have horder := hdir.orderly hv
  obtain ⟨last, hwalk, -⟩ := hdir.chain.ends
  have hscan := findSlot_executes hlayout (skipDots v.fs.rootDirCluster) hwalk
    hdir.chain.inRange (nameToFat dirname) none
  cases hchoice : v.choose (skipDots v.fs.rootDirCluster) (nameToFat dirname)
      (places l) none with
  | existing p =>
      left
      refine ⟨.inl ⟨p, Volume.choose_existing hchoice⟩, ?_⟩
      rw [hchoice] at hscan
      refine Runs.bind (getFs_executes v) (Runs.if_pos hlayout.initialized ?_)
      refine Runs.bind hscan ?_
      exact Runs.bind (text_executes v _) (Runs.pure _ _)
  | free slot =>
      obtain ⟨hnames, -, hfull, hfirst⟩ := Volume.choose_free horder
        (skipsOthers_dots v _ dirname _) hchoice
      cases slot with
      | none =>
          left
          refine ⟨.inr (.inl (hfull rfl rfl)), ?_⟩
          rw [hchoice] at hscan
          refine Runs.bind (getFs_executes v) (Runs.if_pos hlayout.initialized ?_)
          refine Runs.bind hscan ?_
          exact Runs.bind (text_executes v _) (Runs.pure _ _)
      | some p =>
          have hplace := hfirst rfl p rfl
          have htarget : v.Target l (nameToFat dirname) p [] :=
            .free hplace hnames
          have hp := hdir.chain.inRange p.1 (mem_places.mp htarget.mem).1
          cases hfree : v.freeList with
          | nil =>
              left
              refine ⟨.inr (.inr rfl), ?_⟩
              rw [hchoice] at hscan
              refine Runs.bind (getFs_executes v) (Runs.if_pos hlayout.initialized ?_)
              refine Runs.bind hscan ?_
              exact storeDirectory_full hlayout hfree parent _
          | cons c rest =>
              right
              obtain ⟨before, after, -, hnot, -⟩ := hplace
              refine ⟨p, c, rest, htarget, hnot, rfl, ?_⟩
              rw [hchoice] at hscan
              refine Runs.bind (getFs_executes v) (Runs.if_pos hlayout.initialized ?_)
              refine Runs.bind hscan ?_
              exact (storeDirectory_created hlayout hp hfree parent).2 hinfo

end Create

/-! ## The two deleting calls -/

def Volume.removed (v : Volume) (p : Place) (old : List Nat) : Volume :=
  ((v.release old).setData p.1 (markDeleted (v.data p.1) p.2)).finish unknownCount

section Delete

variable {v : Volume} {l old : List Nat} {p : Place}

theorem removeEntry_executes (old : List Nat) (hinfo : v.InfoApart)
    (hp : v.fs.InRange p.1) :
    Executes (v.release old) (removeEntry p.1 p.2) 0 (v.removed p old) := by
  have hrange : (v.release old).fs.InRange p.1 := by
    simpa using hp
  have hread := readCluster_executes (v.release old) hrange
  rw [Volume.release_data] at hread
  refine Runs.bind hread ?_
  refine Runs.bind (writeCluster_executes _ _ (by simpa using hp))
    (Runs.if_neg (by decide) ?_)
  exact Runs.bind
    (updateFsinfoIfKnown_executes ((hinfo.release old).setData _ _) _)
    (Runs.pure _ _)

/-- A call that fails changes nothing; the chain must be one cluster long. -/
theorem deleteDirectoryIn_cases {parent : Nat} (dirname : List UInt8)
    (hinfo : v.InfoApart) (hlayout : v.fs.Layout) (hv : v.WellFormed)
    (hdir : v.Directory parent l)
    (hsingle : ∀ n k, v.Reach n → v.IsDir n → v.Chain (v.first n) k →
      k.length = 1) :
    Executes v (deleteDirectoryIn parent dirname) (-1) v ∨
    ∃ p old, p ∈ places l ∧ v.Named (nameToFat dirname) p ∧
      v.Chain (v.entry p).firstCluster old ∧ v.IsDir (.entry p) ∧
      (∀ q ∈ places old, (v.entry q).InUse → (v.entry q).IsDot) ∧
      Executes v (deleteDirectoryIn parent dirname) 0 (v.removed p old) := by
  have horder := hdir.orderly hv
  obtain ⟨last, hwalk, -⟩ := hdir.chain.ends
  have hfind := findEntry_executes hlayout hwalk hdir.chain.inRange
    (nameToFat dirname)
  cases hlookup : v.lookup (nameToFat dirname) (places l) with
  | none =>
      left
      refine Runs.bind (getFs_executes v) (Runs.if_pos hlayout.initialized ?_)
      refine Runs.bind hfind ?_
      rw [hlookup]
      exact Runs.bind (text_executes v _) (Runs.pure _ _)
  | some p =>
      obtain ⟨hp, hnamed⟩ := (Volume.lookup_eq_some_iff horder).mp hlookup
      have hrange := hdir.chain.inRange p.1 (mem_places.mp hp).1
      by_cases hisDir : (v.entry p).HasAttr attrDirectory
      · obtain ⟨n, hn, hnDir, rfl⟩ := hdir.live
        have hreach : v.Reach (.entry p) := .child hn ⟨hnDir,
          ⟨l, hdir.chain, hp⟩, hnamed.1, not_isDot_of_name hnamed.2.2⟩
        obtain ⟨old, hold⟩ := hv.chain _ hreach
        obtain ⟨last', hwalk', -⟩ := hold.ends
        have hempty := isDirectoryEmpty_executes hlayout hwalk' hold.inRange
        by_cases hzero : v.emptyOn (places old) = 0
        · left
          rw [hzero] at hempty
          refine Runs.bind (getFs_executes v)
            (Runs.if_pos hlayout.initialized ?_)
          refine Runs.bind hfind ?_
          rw [hlookup]
          refine Runs.if_neg (not_not.mpr hisDir) ?_
          refine Runs.bind hempty (Runs.if_pos rfl ?_)
          exact Runs.bind (text_executes v _) (Runs.pure _ _)
        · right
          obtain ⟨c, rfl⟩ : ∃ c, old = [c] := by
            have hlength := hsingle _ old hreach hisDir hold
            exact List.length_eq_one_iff.mp hlength
          have hfirst : (v.entry p).firstCluster = c :=
            List.mem_singleton.mp (hold.head_mem (by simp))
          have hc := (hold.inRange c (by simp)).2
          have hchildren := Volume.emptyOn_ne_zero
            (hv.orderly _ _ hreach hisDir hold) hzero
          refine ⟨p, [c], hp, hnamed, hold, hisDir, hchildren, ?_⟩
          refine Runs.bind (getFs_executes v)
            (Runs.if_pos hlayout.initialized ?_)
          refine Runs.bind hfind ?_
          rw [hlookup]
          refine Runs.if_neg (not_not.mpr hisDir) ?_
          refine Runs.bind hempty (Runs.if_neg hzero ?_)
          simp only [Volume.locate, hfirst]
          exact Runs.bind (freeCluster_executes v hc)
            (removeEntry_executes [c] hinfo hrange)
      · left
        refine Runs.bind (getFs_executes v) (Runs.if_pos hlayout.initialized ?_)
        refine Runs.bind hfind ?_
        rw [hlookup]
        refine Runs.if_pos hisDir ?_
        exact Runs.bind (text_executes v _) (Runs.pure _ _)

/-- `fat32_delete_file` only looks in the root, and not at the kind of entry. -/
theorem deleteFile_cases (filename : List UInt8) (hinfo : v.InfoApart)
    (hlayout : v.fs.Layout) (hv : v.WellFormed)
    (hdir : v.Directory v.fs.rootDirCluster l) :
    ((∀ q ∈ places l, ¬ v.Named (nameToFat filename) q) ∧
      Executes v (deleteFile filename) (-1) v) ∨
    ∃ p old, p ∈ places l ∧ v.Named (nameToFat filename) p ∧
      v.Chain (v.entry p).firstCluster old ∧
      Executes v (deleteFile filename) 0 (v.removed p old) := by
  have horder := hdir.orderly hv
  obtain ⟨last, hwalk, -⟩ := hdir.chain.ends
  have hfind := findEntry_executes hlayout hwalk hdir.chain.inRange
    (nameToFat filename)
  cases hlookup : v.lookup (nameToFat filename) (places l) with
  | none =>
      left
      constructor
      · intro q hq hnamed
        rw [(Volume.lookup_eq_some_iff horder).mpr ⟨hq, hnamed⟩] at hlookup
        exact absurd hlookup (by simp)
      · refine Runs.bind (getFs_executes v) (Runs.if_pos hlayout.initialized ?_)
        refine Runs.bind hfind ?_
        rw [hlookup]
        exact Runs.pure _ _
  | some p =>
      right
      obtain ⟨hp, hnamed⟩ := (Volume.lookup_eq_some_iff horder).mp hlookup
      have hrange := hdir.chain.inRange p.1 (mem_places.mp hp).1
      obtain ⟨n, hn, hnDir, hfirst⟩ := hdir.live
      rw [← hfirst] at hdir
      have hreach : v.Reach (.entry p) := .child hn ⟨hnDir,
        ⟨l, hdir.chain, hp⟩, hnamed.1, not_isDot_of_name hnamed.2.2⟩
      obtain ⟨old, hold⟩ := hv.chain _ hreach
      obtain ⟨last', hwalk', -⟩ := hold.ends
      refine ⟨p, old, hp, hnamed, hold, ?_⟩
      refine Runs.bind (getFs_executes v) (Runs.if_pos hlayout.initialized ?_)
      refine Runs.bind hfind ?_
      rw [hlookup]
      exact Runs.bind
        (freeChain_executes hwalk' fun c hc => (hold.inRange c hc).2)
        (removeEntry_executes old hinfo hrange)

end Delete

end EntropyOS.Fat32
