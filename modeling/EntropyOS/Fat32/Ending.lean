import EntropyOS.Fat32.Calls
import EntropyOS.Fat32.Listing
import EntropyOS.Fat32.Walking

/-!
# Directory loops that end

The loops count no steps.  They follow the links of the disk until a cluster is
not live or holds an entry that they stop at, and where the links never lead to
such a cluster they never return.
-/

namespace EntropyOS.Fat32

open EntropyOS.Foundation

/-! ## Leaving a cluster -/

/-- `fat32_find_entry` stops at the end mark and at the entry of the name. -/
def DirEntry.EndsFind (name : Name) (entry : DirEntry) : Prop :=
  entry.IsEnd ∨ entry.InUse ∧ ¬ entry.HasAttr attrVolumeId ∧ entry.name = name

def DirEntry.EndsSlot (name : Name) (entry : DirEntry) : Prop :=
  entry.IsEnd ∨ entry.InUse ∧ entry.name = name

/-- `fat32_is_directory_empty` stops at everything but the dot entries. -/
def DirEntry.EndsEmpty (entry : DirEntry) : Prop :=
  entry.IsEnd ∨ entry.InUse ∧ ¬ entry.IsDot

section Scans

variable (name : Name) (buf : Buf) (count i : Nat)

theorem findIn_more : findIn name buf count i = .more () ↔
    ∀ k ∈ List.range' i count, ¬ (entryAt buf k).EndsFind name := by
  induction count generalizing i with
  | zero => simp [findIn]
  | succ count ih =>
      rw [List.range'_succ, List.forall_mem_cons, ← ih, findIn]
      simp only [DirEntry.EndsFind, DirEntry.InUse]
      split_ifs <;> simp_all

theorem emptyIn_none : emptyIn buf count i = none ↔
    ∀ k ∈ List.range' i count, ¬ (entryAt buf k).EndsEmpty := by
  induction count generalizing i with
  | zero => simp [emptyIn]
  | succ count ih =>
      rw [List.range'_succ, List.forall_mem_cons, ← ih, emptyIn]
      simp only [DirEntry.EndsEmpty, DirEntry.InUse, DirEntry.IsDot]
      split_ifs <;> simp_all

theorem listIn_more (listed : List Listed) :
    (∃ listed', listIn buf count i listed = .more listed') ↔
      ∀ k ∈ List.range' i count, ¬ (entryAt buf k).IsEnd := by
  induction count generalizing i listed with
  | zero => simp [listIn]
  | succ count ih =>
      rw [List.range'_succ, List.forall_mem_cons, listIn]
      split_ifs with hend hdeleted hlabel
      · simp [hend]
      · simp [hend, ih]
      · simp [hend, ih]
      · simp [hend, ih]

/-- Skipped entries are in use under another name, so they end no scan. -/
theorem scanIn_more {skip : Nat → DirEntry → Bool}
    (hskip : ∀ k entry, skip k entry = true → ¬ entry.EndsSlot name)
    (cluster : Nat) (slot : Option Slot) :
    (∃ slot', scanIn skip name cluster buf count i slot = .more slot') ↔
      ∀ k ∈ List.range' i count, ¬ (entryAt buf k).EndsSlot name := by
  induction count generalizing i slot with
  | zero => simp [scanIn]
  | succ count ih =>
      rw [List.range'_succ, List.forall_mem_cons, scanIn]
      split_ifs with hpass hfree hend hname
      · simp [hskip i _ hpass, ih]
      · simp [DirEntry.EndsSlot, hend]
      · have hnot : ¬ (entryAt buf i).InUse := fun huse => hfree.elim huse.1 huse.2
        simp [DirEntry.EndsSlot, hend, hnot, ih]
      · have huse : (entryAt buf i).InUse := not_or.mp hfree
        simp [DirEntry.EndsSlot, huse, hname]
      · have hend : ¬ (entryAt buf i).IsEnd := (not_or.mp hfree).1
        simp [DirEntry.EndsSlot, hend, hname, ih]

theorem scanIn_slot (skip : Nat → DirEntry → Bool) {cluster : Nat}
    (hlive : Live cluster) (slot : Option Slot) (hslot : ∀ q ∈ slot, Live q.cluster) :
    match scanIn skip name cluster buf count i slot with
    | .found _ => True
    | .stop slot => ∀ q ∈ slot, Live q.cluster
    | .more slot => ∀ q ∈ slot, Live q.cluster := by
  induction count generalizing i slot with
  | zero => exact hslot
  | succ count ih =>
      have hor : ∀ q ∈ slot.or (some ⟨cluster, i, buf⟩), Live q.cluster := by
        cases slot with
        | none => simpa using hlive
        | some old => simpa using hslot
      rw [scanIn]
      split_ifs
      · exact ih _ _ hslot
      · exact hor
      · exact ih _ _ hor
      · trivial
      · exact ih _ _ hslot

end Scans

theorem skipNone_endsSlot (name : Name) (c k : Nat) (entry : DirEntry)
    (hskip : skipNone c k entry = true) : ¬ entry.EndsSlot name := by
  simp [skipNone] at hskip

theorem skipDots_endsSlot (root : Nat) (dirname : List UInt8) (c k : Nat)
    (entry : DirEntry) (hskip : skipDots root c k entry = true) :
    ¬ entry.EndsSlot (nameToFat dirname) := by
  have hdot : entry.IsDot := by
    simp only [skipDots, decide_eq_true_eq] at hskip
    exact hskip.2.imp And.right And.right
  rintro (hend | ⟨-, hname⟩)
  · exact (inUse_of_isDot hdot).1 hend
  · exact not_isDot_of_name hname hdot

/-! ## Leaving a chain -/

def Leaves (s : System) (ends : DirEntry → Prop) (cluster : Nat) : Prop :=
  ¬ Live cluster ∨ ∃ i < s.fat32.fs.entriesPerCluster,
    ends (entryAt (clusterData s cluster) i)

/-- The links lead from `start` to a cluster where the loop leaves. -/
def Exits (s : System) (ends : DirEntry → Prop) (start : Nat) : Prop :=
  ∃ k, Leaves s ends ((linkOf s)^[k] start)

section Exits

variable {s : System} {ends : DirEntry → Prop} {cluster : Nat}

theorem not_leaves (h : ¬ Leaves s ends cluster) : Live cluster ∧
    ∀ k ∈ List.range' 0 s.fat32.fs.entriesPerCluster,
      ¬ ends (entryAt (clusterData s cluster) k) := by
  obtain ⟨hlive, hnone⟩ := not_or.mp h
  refine ⟨not_not.mp hlive, ?_⟩
  intro k hk hends
  exact hnone ⟨k, by simpa using hk, hends⟩

theorem leaves_of_live (h : Leaves s ends cluster) (hlive : Live cluster) :
    ¬ ∀ k ∈ List.range' 0 s.fat32.fs.entriesPerCluster,
      ¬ ends (entryAt (clusterData s cluster) k) := by
  intro hall
  rcases h with hstop | ⟨i, hi, hends⟩
  · exact hstop hlive
  · exact hall i (by simpa using hi) hends

theorem not_exits (h : ¬ Exits s ends cluster) :
    ¬ Leaves s ends cluster ∧ ¬ Exits s ends (linkOf s cluster) :=
  ⟨fun hleaves => h ⟨0, hleaves⟩, fun ⟨k, hk⟩ => h ⟨k + 1, hk⟩⟩

/-- What holds where a loop leaves, and before it passes on, holds from the start. -/
theorem Exits.induction {ι : Type} (place : ι → Nat) {P : ι → Prop}
    (hleave : ∀ i, Leaves s ends (place i) → P i)
    (hpass : ∀ i, ¬ Leaves s ends (place i) →
      ∃ j, place j = linkOf s (place i) ∧ (P j → P i))
    {i : ι} (h : Exits s ends (place i)) : P i := by
  obtain ⟨k, hk⟩ := h
  induction k generalizing i with
  | zero => exact hleave i hk
  | succ k ih =>
      by_cases hleaves : Leaves s ends (place i)
      · exact hleave i hleaves
      · obtain ⟨j, hplace, hnext⟩ := hpass i hleaves
        apply hnext
        apply ih
        rwa [hplace, ← Function.iterate_succ_apply]

end Exits

/-! ## Loops that never leave -/

section Endless

variable {s : System} (hs : s.device.FaultFree)

include hs

theorem findEntry_endless (name : Name) : ∀ start,
    ¬ Exits s (DirEntry.EndsFind name) start → findEntry start name s = none := by
  refine findEntry.fixpoint_induct name (fun f => ∀ start,
    ¬ Exits s (DirEntry.EndsFind name) start → f start s = none) ?limit ?step
  case limit =>
    intro chain _ hchain start hstart
    by_contra hsome
    obtain ⟨r, hrun⟩ := Option.ne_none_iff_exists'.mp hsome
    obtain ⟨f, hf, hrun⟩ := exists_run_of_sup _ hrun
    rw [hchain f hf start hstart] at hrun
    cases hrun
  case step =>
    intro f ih start hstart
    obtain ⟨hleaves, hnext⟩ := not_exits hstart
    obtain ⟨hlive, hpass⟩ := not_leaves hleaves
    beta_reduce
    rw [if_pos hlive, Program.bind_of_some (readCluster_faultFree hs start)]
    simp only
    rw [Program.bind_of_some (getFs_apply s), (findIn_more _ _ _ _).mpr hpass]
    simp only
    rw [Program.bind_of_some (getNextCluster_faultFree hs start)]
    exact ih _ hnext

theorem isDirectoryEmpty_endless : ∀ start,
    ¬ Exits s DirEntry.EndsEmpty start → isDirectoryEmpty start s = none := by
  refine isDirectoryEmpty.fixpoint_induct (fun f => ∀ start,
    ¬ Exits s DirEntry.EndsEmpty start → f start s = none) ?limit ?step
  case limit =>
    intro chain _ hchain start hstart
    by_contra hsome
    obtain ⟨r, hrun⟩ := Option.ne_none_iff_exists'.mp hsome
    obtain ⟨f, hf, hrun⟩ := exists_run_of_sup _ hrun
    rw [hchain f hf start hstart] at hrun
    cases hrun
  case step =>
    intro f ih start hstart
    obtain ⟨hleaves, hnext⟩ := not_exits hstart
    obtain ⟨hlive, hpass⟩ := not_leaves hleaves
    beta_reduce
    rw [if_pos hlive, Program.bind_of_some (readCluster_faultFree hs start)]
    simp only
    rw [Program.bind_of_some (getFs_apply s), (emptyIn_none _ _ _).mpr hpass]
    simp only
    rw [Program.bind_of_some (getNextCluster_faultFree hs start)]
    exact ih _ hnext

theorem listFrom_endless : ∀ start listed,
    ¬ Exits s DirEntry.IsEnd start → listFrom start listed s = none := by
  refine listFrom.fixpoint_induct (fun f => ∀ start listed,
    ¬ Exits s DirEntry.IsEnd start → f start listed s = none) ?limit ?step
  case limit =>
    intro chain _ hchain start listed hstart
    by_contra hsome
    obtain ⟨r, hrun⟩ := Option.ne_none_iff_exists'.mp hsome
    obtain ⟨f, hf, hrun⟩ := exists_run_of_sup₂ _ hrun
    rw [hchain f hf start listed hstart] at hrun
    cases hrun
  case step =>
    intro f ih start listed hstart
    obtain ⟨hleaves, hnext⟩ := not_exits hstart
    obtain ⟨hlive, hpass⟩ := not_leaves hleaves
    obtain ⟨listed', hmore⟩ := (listIn_more _ _ _ listed).mpr hpass
    beta_reduce
    rw [if_pos hlive, Program.bind_of_some (readCluster_faultFree hs start)]
    simp only
    rw [Program.bind_of_some (getFs_apply s), hmore]
    simp only
    rw [Program.bind_of_some (getNextCluster_faultFree hs start)]
    exact ih _ _ hnext

theorem findSlot_endless {skip : Nat → Nat → DirEntry → Bool} {name : Name}
    (hskip : ∀ c k entry, skip c k entry = true → ¬ entry.EndsSlot name) :
    ∀ start slot, ¬ Exits s (DirEntry.EndsSlot name) start →
      findSlot skip name start slot s = none := by
  refine findSlot.fixpoint_induct skip name (fun f => ∀ start slot,
    ¬ Exits s (DirEntry.EndsSlot name) start → f start slot s = none) ?limit ?step
  case limit =>
    intro chain _ hchain start slot hstart
    by_contra hsome
    obtain ⟨r, hrun⟩ := Option.ne_none_iff_exists'.mp hsome
    obtain ⟨f, hf, hrun⟩ := exists_run_of_sup₂ _ hrun
    rw [hchain f hf start slot hstart] at hrun
    cases hrun
  case step =>
    intro f ih start slot hstart
    obtain ⟨hleaves, hnext⟩ := not_exits hstart
    obtain ⟨hlive, hpass⟩ := not_leaves hleaves
    obtain ⟨slot', hmore⟩ :=
      (scanIn_more _ _ _ _ (hskip start) start slot).mpr hpass
    beta_reduce
    rw [if_pos hlive, Program.bind_of_some (readCluster_faultFree hs start)]
    simp only
    rw [Program.bind_of_some (getFs_apply s), hmore]
    simp only
    rw [Program.bind_of_some (getNextCluster_faultFree hs start)]
    exact ih _ _ hnext

end Endless

/-! ## Loops that end -/

section Ending

variable {s : System} (hs : s.device.FaultFree)

include hs

theorem findEntry_reads {start : Nat} {name : Name}
    (h : Exits s (DirEntry.EndsFind name) start) :
    ∃ found, findEntry start name s = some (found, s) ∧
      ∀ p ∈ found, Live p.cluster := by
  apply Exits.induction (fun c : Nat => c) (P := fun c =>
    ∃ found, findEntry c name s = some (found, s) ∧ ∀ p ∈ found, Live p.cluster) _ _ h
  · intro c hleaves
    rw [findEntry]
    split_ifs with hlive
    · rw [Program.bind_of_some (readCluster_faultFree hs c)]
      simp only
      rw [Program.bind_of_some (getFs_apply s)]
      have hstop := leaves_of_live hleaves hlive
      rw [← findIn_more] at hstop
      cases hscan : findIn name (clusterData s c) s.fat32.fs.entriesPerCluster 0 with
      | found i => exact ⟨_, rfl, by simpa using hlive⟩
      | stop => exact ⟨none, rfl, by simp⟩
      | more => exact absurd hscan hstop
    · exact ⟨none, rfl, by simp⟩
  · intro c hleaves
    obtain ⟨hlive, hpass⟩ := not_leaves hleaves
    refine ⟨linkOf s c, rfl, ?_⟩
    rw [findEntry.eq_def c, if_pos hlive,
      Program.bind_of_some (readCluster_faultFree hs c)]
    simp only
    rw [Program.bind_of_some (getFs_apply s), (findIn_more _ _ _ _).mpr hpass]
    simp only
    rw [Program.bind_of_some (getNextCluster_faultFree hs c)]
    exact fun h => h

theorem isDirectoryEmpty_reads {start : Nat} (h : Exits s DirEntry.EndsEmpty start) :
    ∃ result, isDirectoryEmpty start s = some (result, s) := by
  apply Exits.induction (fun c : Nat => c) (P := fun c =>
    ∃ result, isDirectoryEmpty c s = some (result, s)) _ _ h
  · intro c hleaves
    rw [isDirectoryEmpty]
    split_ifs with hlive
    · rw [Program.bind_of_some (readCluster_faultFree hs c)]
      simp only
      rw [Program.bind_of_some (getFs_apply s)]
      have hstop := leaves_of_live hleaves hlive
      rw [← emptyIn_none] at hstop
      cases hscan : emptyIn (clusterData s c) s.fat32.fs.entriesPerCluster 0 with
      | none => exact absurd hscan hstop
      | some result => exact ⟨_, rfl⟩
    · exact ⟨_, rfl⟩
  · intro c hleaves
    obtain ⟨hlive, hpass⟩ := not_leaves hleaves
    refine ⟨linkOf s c, rfl, ?_⟩
    rw [isDirectoryEmpty.eq_def c, if_pos hlive,
      Program.bind_of_some (readCluster_faultFree hs c)]
    simp only
    rw [Program.bind_of_some (getFs_apply s), (emptyIn_none _ _ _).mpr hpass]
    simp only
    rw [Program.bind_of_some (getNextCluster_faultFree hs c)]
    exact fun h => h

theorem listFrom_reads {start : Nat} (listed : List Listed)
    (h : Exits s DirEntry.IsEnd start) :
    ∃ result, listFrom start listed s = some (result, s) := by
  apply Exits.induction (fun i : Nat × List Listed => i.1) (P := fun i =>
    ∃ result, listFrom i.1 i.2 s = some (result, s)) _ _ (i := (start, listed)) h
  · rintro ⟨c, listed⟩ hleaves
    rw [listFrom]
    split_ifs with hlive
    · rw [Program.bind_of_some (readCluster_faultFree hs c)]
      simp only
      rw [Program.bind_of_some (getFs_apply s)]
      have hstop := leaves_of_live hleaves hlive
      rw [← listIn_more _ _ _ listed] at hstop
      cases hscan : listIn (clusterData s c) s.fat32.fs.entriesPerCluster 0 listed with
      | found i => exact ⟨_, rfl⟩
      | stop listed => exact ⟨_, rfl⟩
      | more listed => exact absurd ⟨listed, hscan⟩ hstop
    · exact ⟨_, rfl⟩
  · rintro ⟨c, listed⟩ hleaves
    obtain ⟨hlive, hpass⟩ := not_leaves hleaves
    obtain ⟨listed', hmore⟩ := (listIn_more _ _ _ listed).mpr hpass
    refine ⟨(linkOf s c, listed'), rfl, ?_⟩
    rw [listFrom.eq_def c, if_pos hlive,
      Program.bind_of_some (readCluster_faultFree hs c)]
    simp only
    rw [Program.bind_of_some (getFs_apply s), hmore]
    simp only
    rw [Program.bind_of_some (getNextCluster_faultFree hs c)]
    exact fun h => h

def SlotSearch.InLive : SlotSearch → Prop
  | .unreadable => True
  | .existing slot => Live slot.cluster
  | .free slot => ∀ q ∈ slot, Live q.cluster

theorem findSlot_reads {skip : Nat → Nat → DirEntry → Bool} {name : Name}
    (hskip : ∀ c k entry, skip c k entry = true → ¬ entry.EndsSlot name)
    {start : Nat} (slot : Option Slot)
    (h : Exits s (DirEntry.EndsSlot name) start) :
    ∃ result, findSlot skip name start slot s = some (result, s) ∧
      ((∀ q ∈ slot, Live q.cluster) → result.InLive) := by
  apply Exits.induction (fun i : Nat × Option Slot => i.1) (P := fun i =>
    ∃ result, findSlot skip name i.1 i.2 s = some (result, s) ∧
      ((∀ q ∈ i.2, Live q.cluster) → result.InLive)) _ _ (i := (start, slot)) h
  · rintro ⟨c, slot⟩ hleaves
    rw [findSlot]
    split_ifs with hlive
    · rw [Program.bind_of_some (readCluster_faultFree hs c)]
      simp only
      rw [Program.bind_of_some (getFs_apply s)]
      have hstop := leaves_of_live hleaves hlive
      rw [← scanIn_more _ _ _ _ (hskip c) c slot] at hstop
      have hkept := scanIn_slot name (clusterData s c)
        s.fat32.fs.entriesPerCluster 0 (skip c) hlive slot
      cases hscan : scanIn (skip c) name c (clusterData s c)
          s.fat32.fs.entriesPerCluster 0 slot with
      | found i => exact ⟨_, rfl, fun _ => hlive⟩
      | stop slot =>
          rw [hscan] at hkept
          exact ⟨_, rfl, hkept⟩
      | more slot => exact absurd ⟨slot, hscan⟩ hstop
    · exact ⟨_, rfl, fun hslot => hslot⟩
  · rintro ⟨c, slot⟩ hleaves
    obtain ⟨hlive, hpass⟩ := not_leaves hleaves
    obtain ⟨slot', hmore⟩ := (scanIn_more _ _ _ _ (hskip c) c slot).mpr hpass
    refine ⟨(linkOf s c, slot'), rfl, ?_⟩
    rintro ⟨result, hnext, hlater⟩
    refine ⟨result, ?_, fun hslot => hlater ?_⟩
    · rw [findSlot.eq_def _ _ c, if_pos hlive,
        Program.bind_of_some (readCluster_faultFree hs c)]
      simp only
      rw [Program.bind_of_some (getFs_apply s), hmore]
      simp only
      rw [Program.bind_of_some (getNextCluster_faultFree hs c)]
      exact hnext
    · have hkept := scanIn_slot name (clusterData s c)
        s.fat32.fs.entriesPerCluster 0 (skip c) hlive slot hslot
      rw [hmore] at hkept
      exact hkept

theorem findEntry_isSome (start : Nat) (name : Name) :
    (findEntry start name s).isSome ↔ Exits s (DirEntry.EndsFind name) start := by
  constructor
  · intro hsome
    by_contra hexits
    simp [findEntry_endless hs name start hexits] at hsome
  · intro hexits
    obtain ⟨found, hrun, -⟩ := findEntry_reads hs hexits
    simp [hrun]

theorem isDirectoryEmpty_isSome (start : Nat) :
    (isDirectoryEmpty start s).isSome ↔ Exits s DirEntry.EndsEmpty start := by
  constructor
  · intro hsome
    by_contra hexits
    simp [isDirectoryEmpty_endless hs start hexits] at hsome
  · intro hexits
    obtain ⟨result, hrun⟩ := isDirectoryEmpty_reads hs hexits
    simp [hrun]

theorem listFrom_isSome (start : Nat) (listed : List Listed) :
    (listFrom start listed s).isSome ↔ Exits s DirEntry.IsEnd start := by
  constructor
  · intro hsome
    by_contra hexits
    simp [listFrom_endless hs start listed hexits] at hsome
  · intro hexits
    obtain ⟨result, hrun⟩ := listFrom_reads hs listed hexits
    simp [hrun]

theorem findSlot_isSome {skip : Nat → Nat → DirEntry → Bool} {name : Name}
    (hskip : ∀ c k entry, skip c k entry = true → ¬ entry.EndsSlot name)
    (start : Nat) (slot : Option Slot) :
    (findSlot skip name start slot s).isSome ↔
      Exits s (DirEntry.EndsSlot name) start := by
  constructor
  · intro hsome
    by_contra hexits
    simp [findSlot_endless hs hskip start slot hexits] at hsome
  · intro hexits
    obtain ⟨result, hrun, -⟩ := findSlot_reads hs hskip slot hexits
    simp [hrun]

theorem findEntry_same {start : Nat} {name : Name} {found : Option Located} {s' : System}
    (hrun : findEntry start name s = some (found, s')) :
    s' = s ∧ ∀ p ∈ found, Live p.cluster := by
  have hexits := (findEntry_isSome hs start name).mp (by rw [hrun]; rfl)
  obtain ⟨found', hreads, hlive⟩ := findEntry_reads hs hexits
  rw [hreads] at hrun
  cases hrun
  exact ⟨rfl, hlive⟩

theorem isDirectoryEmpty_same {start : Nat} {result : Int} {s' : System}
    (hrun : isDirectoryEmpty start s = some (result, s')) : s' = s := by
  have hexits := (isDirectoryEmpty_isSome hs start).mp (by rw [hrun]; rfl)
  obtain ⟨result', hreads⟩ := isDirectoryEmpty_reads hs hexits
  rw [hreads] at hrun
  cases hrun
  rfl

theorem findSlot_same {skip : Nat → Nat → DirEntry → Bool} {name : Name}
    (hskip : ∀ c k entry, skip c k entry = true → ¬ entry.EndsSlot name)
    {start : Nat} {slot : Option Slot} {result : SlotSearch} {s' : System}
    (hrun : findSlot skip name start slot s = some (result, s')) :
    s' = s ∧ ((∀ q ∈ slot, Live q.cluster) → result.InLive) := by
  have hexits := (findSlot_isSome hs hskip start slot).mp (by rw [hrun]; rfl)
  obtain ⟨result', hreads, hlive⟩ := findSlot_reads hs hskip slot hexits
  rw [hreads] at hrun
  cases hrun
  exact ⟨rfl, hlive⟩

/--
With up to eight sectors in a cluster no loop leaves its buffer, and each ends exactly
when its chain leads to an exit.
-/
theorem directory_loops_end_iff (hsize : s.fat32.fs.sectorsPerCluster ≤ 8)
    (start : Nat) :
    (∀ k, ClusterIndex s.fat32.fs k → k < 4096) ∧
    (∀ name, (findEntry start name s).isSome ↔
      Exits s (DirEntry.EndsFind name) start) ∧
    ((isDirectoryEmpty start s).isSome ↔ Exits s DirEntry.EndsEmpty start) ∧
    (∀ listed, (listFrom start listed s).isSome ↔ Exits s DirEntry.IsEnd start) ∧
    (∀ filename slot,
      (findSlot skipNone (nameToFat filename) start slot s).isSome ↔
        Exits s (DirEntry.EndsSlot (nameToFat filename)) start) ∧
    ∀ root dirname slot,
      (findSlot (skipDots root) (nameToFat dirname) start slot s).isSome ↔
        Exits s (DirEntry.EndsSlot (nameToFat dirname)) start := by
  refine ⟨(clusterIndex_iff _).mpr hsize, findEntry_isSome hs start,
    isDirectoryEmpty_isSome hs start, listFrom_isSome hs start, fun filename => ?_,
    fun root dirname => ?_⟩
  · exact findSlot_isSome hs (skipNone_endsSlot _) start
  · exact findSlot_isSome hs (skipDots_endsSlot root dirname) start

end Ending

/-! ## A chain that leads back to itself -/

/-- A root directory of one cluster, linked to itself, without a free entry. -/
def endlessDisk (lba : Nat) : Sector :=
  if lba = 0 then bootSector 100 none
  else if lba = 32 then Sector.ofBuf fun k => if k = 8 then 2 else 0
  else fun _ => 0x41

def endlessVolume : System where
  device := (System.startup endlessDisk).device
  console := ["FAT32: Filesystem initialized\n"]
  gpt := Gpt.Statics.startup
  fat32 := ⟨⟨32, 34, 8, 2, 1, 2, 8, true⟩, 0, unknownCount⟩

private theorem init_endless :
    init (System.startup endlessDisk) = some (0, endlessVolume) := rfl

private theorem endlessVolume_data {k : Nat} (hk : k < 4096) :
    clusterData endlessVolume 2 k = 0x41 := by
  have hsector : volumeSector endlessVolume (34 + k / 512) = fun _ => 0x41 := by
    have hlba : u64 (0 + (34 + k / 512)) = 34 + k / 512 := by
      simp only [u64]
      omega
    change endlessDisk (u64 (0 + (34 + k / 512))) = _
    rw [hlba, endlessDisk, if_neg (by omega), if_neg (by omega)]
  have hin : k < endlessVolume.fat32.fs.clusterBytes := hk
  have hlba : endlessVolume.fat32.fs.clusterToLba 2 = 34 := by decide
  rw [clusterData, if_pos hin, hlba, hsector]
  simp [Sector.toBuf, Nat.mod_lt]

/-- Looking up a name other than `AAAAAAAA.AAA` there never ends. -/
private theorem endlessVolume_exits :
    ¬ Exits endlessVolume (DirEntry.EndsFind (nameToFat [0x58])) 2 := by
  have hlink : linkOf endlessVolume 2 = 2 := by decide
  rintro ⟨k, hleaves⟩
  rw [Function.iterate_fixed hlink] at hleaves
  rcases hleaves with hstop | ⟨i, hi, hends⟩
  · exact hstop (by decide)
  · have hcount : i < 128 := hi
    have hdata := endlessVolume_data (show 32 * i < 4096 by omega)
    have hbyte : ∀ buf : Buf, (entryAt buf i).name 0 = buf (32 * i) := fun _ => rfl
    have hfirst := (hbyte _).trans hdata
    rcases hends with hend | ⟨-, -, hname⟩
    · rw [DirEntry.IsEnd, hfirst] at hend
      exact absurd hend (by decide)
    · rw [hname] at hfirst
      exact absurd hfirst (by decide)

theorem directory_loops_end_iff_endless :
    (∀ k, ClusterIndex endlessVolume.fat32.fs k → k < 4096) ∧
    (∀ name, (findEntry 2 name endlessVolume).isSome ↔
      Exits endlessVolume (DirEntry.EndsFind name) 2) ∧
    ((isDirectoryEmpty 2 endlessVolume).isSome ↔
      Exits endlessVolume DirEntry.EndsEmpty 2) ∧
    (∀ listed, (listFrom 2 listed endlessVolume).isSome ↔
      Exits endlessVolume DirEntry.IsEnd 2) ∧
    (∀ filename slot,
      (findSlot skipNone (nameToFat filename) 2 slot endlessVolume).isSome ↔
        Exits endlessVolume (DirEntry.EndsSlot (nameToFat filename)) 2) ∧
    ∀ root dirname slot,
      (findSlot (skipDots root) (nameToFat dirname) 2 slot endlessVolume).isSome ↔
        Exits endlessVolume (DirEntry.EndsSlot (nameToFat dirname)) 2 :=
  directory_loops_end_iff (s := endlessVolume) ⟨rfl, rfl⟩ (by decide) 2

/-- A volume that `fat32_init` accepts, and a lookup on it that never returns. -/
theorem directory_loops_need_not_end :
    ¬ ∀ s₀ s : System, s₀.device.FaultFree → init s₀ = some (0, s) →
      1 ≤ s.fat32.fs.sectorsPerCluster → s.fat32.fs.sectorsPerCluster ≤ 8 →
      ∀ start,
        (∀ name, (findEntry start name s).isSome) ∧
        (isDirectoryEmpty start s).isSome ∧
        (listFrom start [] s).isSome ∧
        (∀ filename, (findSlot skipNone (nameToFat filename) start none s).isSome) ∧
        ∀ dirname, (findSlot (skipDots s.fat32.fs.rootDirCluster)
          (nameToFat dirname) start none s).isSome := by
  intro hall
  have hends := (hall _ _ (System.startup_faultFree _) init_endless (by decide)
    (by decide) 2).1 (nameToFat [0x58])
  have hnone := findEntry_endless (s := endlessVolume) ⟨rfl, rfl⟩ _ 2
    endlessVolume_exits
  simp [hnone] at hends

end EntropyOS.Fat32
