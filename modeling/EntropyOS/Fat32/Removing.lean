import EntropyOS.Fat32.Attempts
import EntropyOS.Fat32.Leak

/-!
# Deleting a directory on a device that may fail

`fat32_is_directory_empty` returns -1 when a read fails, and 1 when the FAT
cannot be read, and its caller goes on with both.
-/

namespace EntropyOS.Fat32

open EntropyOS.Foundation

/-! ## The reads of a scan -/

/-- What a loop over a directory reads to get to the entries of `c`. -/
def scanLbas (fs : Fs) (before : List Nat) (c : Nat) : List Nat :=
  (before.flatMap fun d => clusterLbas fs d ++ [fs.fatSector d]) ++
    clusterLbas fs c

theorem scanLbas_nil (fs : Fs) (c : Nat) : scanLbas fs [] c = clusterLbas fs c := rfl

theorem scanLbas_cons (fs : Fs) (d : Nat) (before : List Nat) (c : Nat) :
    scanLbas fs (d :: before) c =
      clusterLbas fs d ++ (fs.fatSector d :: scanLbas fs before c) := by
  simp [scanLbas]

section Scans

variable {s : System} {n : Nat} {v : Volume} {before after : List Nat}
  {first last c : Nat}

/-- The first cluster of a scan is read, and then the FAT. -/
theorem works_scan_cons {d : Nat} :
    Works s n (scanLbas v.fs (d :: before) c) ↔
      Works s n (clusterLbas v.fs d) ∧ ¬ Fails s (n + 8) (v.fs.fatSector d) ∧
        Works s (n + 9) (scanLbas v.fs before c) := by
  rw [scanLbas_cons, works_append, clusterLbas_length, Works]

theorem ended_scan_cons {d : Nat} :
    ended s n (scanLbas v.fs (d :: before) c) =
      if Works s n (clusterLbas v.fs d) then
        if Fails s (n + 8) (v.fs.fatSector d) then n + 9
        else ended s (n + 9) (scanLbas v.fs before c)
      else ended s n (clusterLbas v.fs d) := by
  rw [scanLbas_cons, ended_append, clusterLbas_length, ended]

variable (hlayout : v.fs.Layout)
  (hwalk : Walk v.link Live first (before ++ c :: after) last)
  (hrange : ∀ d ∈ before ++ c :: after, v.fs.InRange d)

include hlayout hwalk hrange

/-- A name is found if nothing on the way to its cluster fails. -/
theorem findEntry_attempts {name : Name} {i : Nat}
    (hbefore : ∀ d ∈ before, findIn name (v.data d) 128 0 = .more ())
    (hfound : findIn name (v.data c) 128 0 = .found i) :
    Attempts s n v (findEntry first name)
      (if Works s n (scanLbas v.fs before c) then some (v.locate (c, i)) else none)
      (ended s n (scanLbas v.fs before c)) v := by
  induction before generalizing first n with
  | nil =>
      cases hwalk with
      | step hlive _ =>
          rw [findEntry, scanLbas_nil]
          refine Runs.if_pos hlive ?_
          refine Runs.bind (readCluster_attempts (hrange _ (by simp))) ?_
          by_cases hworks : Works s n (clusterLbas v.fs c)
          · rw [if_pos hworks, if_pos hworks]
            refine Runs.bind getFs_attempts ?_
            rw [hlayout.entriesPerCluster_eq, hfound]
            exact Runs.pure _ _
          · rw [if_neg hworks, if_neg hworks]
            exact Runs.pure _ _
  | cons d before ih =>
      cases hwalk with
      | step hlive htail =>
          have hd := hrange d (by simp)
          rw [findEntry, ended_scan_cons]
          simp only [works_scan_cons]
          refine Runs.if_pos hlive ?_
          refine Runs.bind (readCluster_attempts hd) ?_
          by_cases hworks : Works s n (clusterLbas v.fs d)
          · rw [if_pos hworks, if_pos hworks, ended_of_works hworks,
              clusterLbas_length]
            refine Runs.bind getFs_attempts ?_
            rw [hlayout.entriesPerCluster_eq, hbefore d (by simp)]
            refine Runs.bind (getNextCluster_attempts hd.2) ?_
            by_cases hfat : Fails s (n + 8) (v.fs.fatSector d)
            · rw [if_pos hfat, if_pos hfat, if_neg fun h => h.2.1 hfat, findEntry]
              exact Runs.if_neg eoc_not_live (Runs.pure _ _)
            · rw [if_neg hfat, if_neg hfat]
              simp only [hworks, hfat, true_and, not_false_eq_true]
              exact ih htail (fun e he => hrange e (List.mem_cons_of_mem _ he))
                fun e he => hbefore e (List.mem_cons_of_mem _ he)
          · rw [if_neg hworks, if_neg hworks, if_neg fun h => hworks h.1]
            exact Runs.pure _ _

/-- A child is seen if nothing on the way to its cluster fails. -/
theorem isDirectoryEmpty_attempts
    (hbefore : ∀ d ∈ before, emptyIn (v.data d) 128 0 = none)
    (hchild : emptyIn (v.data c) 128 0 = some 0) :
    ∃ r : Int, (r = 0 ↔ Works s n (scanLbas v.fs before c)) ∧
      Attempts s n v (isDirectoryEmpty first) r
        (ended s n (scanLbas v.fs before c)) v := by
  induction before generalizing first n with
  | nil =>
      cases hwalk with
      | step hlive _ =>
          have hread := readCluster_attempts (s := s) (n := n)
            (hrange c (by simp))
          rw [isDirectoryEmpty, scanLbas_nil]
          by_cases hworks : Works s n (clusterLbas v.fs c)
          · refine ⟨0, by simp [hworks], Runs.if_pos hlive ?_⟩
            rw [if_pos hworks] at hread
            refine Runs.bind hread (Runs.bind getFs_attempts ?_)
            rw [hlayout.entriesPerCluster_eq, hchild]
            exact Runs.pure _ _
          · refine ⟨-1, by simp [hworks], Runs.if_pos hlive ?_⟩
            rw [if_neg hworks] at hread
            exact Runs.bind hread (Runs.pure _ _)
  | cons d before ih =>
      cases hwalk with
      | step hlive htail =>
          have hd := hrange d (by simp)
          have hread := readCluster_attempts (s := s) (n := n) hd
          have hnext := getNextCluster_attempts (s := s) (n := n + 8) hd.2
          rw [isDirectoryEmpty, works_scan_cons, ended_scan_cons]
          by_cases hworks : Works s n (clusterLbas v.fs d)
          · rw [if_pos hworks, ended_of_works hworks, clusterLbas_length] at hread
            rw [if_pos hworks]
            by_cases hfat : Fails s (n + 8) (v.fs.fatSector d)
            · rw [if_pos hfat] at hnext ⊢
              refine ⟨1, by simp [hfat], Runs.if_pos hlive ?_⟩
              refine Runs.bind hread (Runs.bind getFs_attempts ?_)
              rw [hlayout.entriesPerCluster_eq, hbefore d (by simp)]
              refine Runs.bind hnext ?_
              rw [isDirectoryEmpty]
              exact Runs.if_neg eoc_not_live (Runs.pure _ _)
            · rw [if_neg hfat] at hnext ⊢
              obtain ⟨r, hr, hrest⟩ := ih (n := n + 9) htail
                (fun e he => hrange e (List.mem_cons_of_mem _ he))
                fun e he => hbefore e (List.mem_cons_of_mem _ he)
              refine ⟨r, by simp [hr, hworks, hfat], Runs.if_pos hlive ?_⟩
              refine Runs.bind hread (Runs.bind getFs_attempts ?_)
              rw [hlayout.entriesPerCluster_eq, hbefore d (by simp)]
              exact Runs.bind hnext hrest
          · rw [if_neg hworks] at hread ⊢
            refine ⟨-1, by simp [hworks], Runs.if_pos hlive ?_⟩
            exact Runs.bind hread (Runs.pure _ _)

end Scans

/-! ## Where a scan ends -/

namespace Volume

/-- No entry of the cluster keeps `fat32_delete_directory_in` from its work. -/
def Bare (v : Volume) (c : Nat) : Prop :=
  ∀ q ∈ placesFrom c 0 128, (v.entry q).InUse → (v.entry q).IsDot

instance (v : Volume) (c : Nat) : Decidable (v.Bare c) :=
  inferInstanceAs (Decidable (∀ q ∈ placesFrom c 0 128, _))

/-- The sectors read until the entry at `p` is found. -/
def lookupLbas (v : Volume) (l : List Nat) (p : Place) : List Nat :=
  scanLbas v.fs (l.takeWhile (· ≠ p.1)) p.1

def childLbas (v : Volume) (cs : List Nat) : List Nat :=
  scanLbas v.fs (cs.takeWhile (v.Bare ·)) ((cs.dropWhile (v.Bare ·)).headD 0)

variable {v : Volume}

theorem Orderly.of_sublist {ps qs : List Place} (h : v.Orderly ps)
    (hsub : qs.Sublist ps) : v.Orderly qs where
  unique q hq r hr := h.unique q (hsub.subset hq) r (hsub.subset hr)
  ended := h.ended.sublist hsub

theorem lookup_split {name : Name} {l : List Nat} {p : Place} (hnodup : l.Nodup)
    (h : v.lookup name (places l) = some p) :
    ∃ after, l = l.takeWhile (· ≠ p.1) ++ p.1 :: after ∧
      (∀ d ∈ l.takeWhile (· ≠ p.1), findIn name (v.data d) 128 0 = .more ()) ∧
      findIn name (v.data p.1) 128 0 = .found p.2 := by
  induction l with
  | nil => simp [places, lookup] at h
  | cons c l ih =>
      obtain ⟨hc, hnodup⟩ := List.nodup_cons.mp hnodup
      rw [places_cons, lookup_placesFrom] at h
      cases hscan : findIn name (v.data c) 128 0 with
      | found k =>
          rw [hscan] at h
          cases h
          exact ⟨l, by simp, by simp, hscan⟩
      | stop =>
          rw [hscan] at h
          simp at h
      | more =>
          rw [hscan] at h
          obtain ⟨after, hsplit, hmore, hfound⟩ := ih hnodup h
          have hne : c ≠ p.1 := by
            rintro rfl
            rw [hsplit] at hc
            simp at hc
          rw [List.takeWhile_cons_of_pos (by simpa using hne)]
          refine ⟨after, by rw [List.cons_append, ← hsplit], ?_, hfound⟩
          exact List.forall_mem_cons.mpr ⟨hscan, hmore⟩

/-- Why the entry loop of `fat32_is_directory_empty` stopped. -/
theorem emptyIn_some {c i count : Nat} {r : Int}
    (h : emptyIn (v.data c) count i = some r) :
    ∃ q ∈ placesFrom c i count, (v.entry q).IsEnd ∨
      ((v.entry q).InUse ∧ ¬ (v.entry q).IsDot) := by
  induction count generalizing i with
  | zero => simp [emptyIn] at h
  | succ count ih =>
      rw [placesFrom_succ]
      simp only [emptyIn] at h
      split_ifs at h with hend hdeleted hdot hdotDot
      · exact ⟨(c, i), by simp, .inl hend⟩
      · obtain ⟨q, hq, hwhy⟩ := ih h
        exact ⟨q, List.mem_cons_of_mem _ hq, hwhy⟩
      · obtain ⟨q, hq, hwhy⟩ := ih h
        exact ⟨q, List.mem_cons_of_mem _ hq, hwhy⟩
      · obtain ⟨q, hq, hwhy⟩ := ih h
        exact ⟨q, List.mem_cons_of_mem _ hq, hwhy⟩
      · exact ⟨(c, i), by simp, .inr ⟨⟨hend, hdeleted⟩,
          fun h => h.elim hdot hdotDot⟩⟩

theorem emptyIn_eq_zero {c : Nat} (horder : v.Orderly (placesFrom c 0 128))
    (h : ¬ v.Bare c) : emptyIn (v.data c) 128 0 = some 0 := by
  have hzero : v.emptyOn (placesFrom c 0 128) = 0 := by
    by_contra hne
    exact h (emptyOn_ne_zero horder hne)
  rw [← List.append_nil (placesFrom c 0 128), emptyOn_placesFrom] at hzero
  cases hscan : emptyIn (v.data c) 128 0 with
  | none =>
      rw [hscan] at hzero
      simp [emptyOn] at hzero
  | some r =>
      rw [hscan] at hzero
      exact congrArg some hzero

theorem child_split {cs : List Nat} {q : Place} (horder : v.Orderly (places cs))
    (hq : q ∈ places cs) (huse : (v.entry q).InUse) (hdot : ¬ (v.entry q).IsDot) :
    ∃ c after, cs = cs.takeWhile (v.Bare ·) ++ c :: after ∧
      (cs.dropWhile (v.Bare ·)).headD 0 = c ∧
      (∀ d ∈ cs.takeWhile (v.Bare ·), emptyIn (v.data d) 128 0 = none) ∧
      emptyIn (v.data c) 128 0 = some 0 := by
  induction cs with
  | nil => simp [places] at hq
  | cons c cs ih =>
      rw [places_cons] at hq horder
      by_cases hbare : v.Bare c
      · have hrest : q ∈ places cs := by
          rcases List.mem_append.mp hq with hhere | hrest
          · exact absurd (hbare q hhere huse) hdot
          · exact hrest
        obtain ⟨d, after, hsplit, hhead, hnone, hchild⟩ :=
          ih (horder.of_sublist (List.sublist_append_right _ _)) hrest
        rw [List.takeWhile_cons_of_pos (by simpa using hbare),
          List.dropWhile_cons_of_pos (by simpa using hbare)]
        refine ⟨d, after, by rw [List.cons_append, ← hsplit], hhead,
          List.forall_mem_cons.mpr ⟨?_, hnone⟩, hchild⟩
        cases hscan : emptyIn (v.data c) 128 0 with
        | none => rfl
        | some r =>
            obtain ⟨e, he, hwhy⟩ := emptyIn_some hscan
            rcases hwhy with hend | ⟨hused, hnot⟩
            · -- nothing in use follows the end mark
              have hended := (List.pairwise_append.mp horder.ended).2.2
              exact absurd huse (hended e he q hrest hend)
            · exact absurd (hbare e he hused) hnot
      · rw [List.takeWhile_cons_of_neg (by simpa using hbare),
          List.dropWhile_cons_of_neg (by simpa using hbare)]
        exact ⟨c, cs, rfl, rfl, by simp, emptyIn_eq_zero
          (horder.of_sublist (List.sublist_append_left _ _)) hbare⟩

end Volume

/-! ## Deleting -/

/-- What a directory with children must not lose. -/
structure Volume.Kept (v : Volume) (cs : List Nat) (p : Place) : Prop where
  allocated : ∀ c ∈ cs, v.link c ≠ free
  inUse : (v.entry p).InUse

/-- The transfers by which the entry at `p` is deleted. -/
def deleteLbas (fs : Fs) (p : Place) : List Nat :=
  clusterLbas fs p.1 ++ (clusterLbas fs p.1).take (p.2 / 16 + 1)

def freeLbas (fs : Fs) (cluster : Nat) : List Nat :=
  [fs.fatSector cluster, fs.fatSector cluster]

/-- From transfer `n` on, neither the cluster nor the entry can be written. -/
def Harmless (s : System) (n cluster : Nat) (p : Place) : Prop :=
  ¬ Works s n (freeLbas s.fat32.fs cluster) ∧
    ¬ Works s (ended s n (freeLbas s.fat32.fs cluster)) (deleteLbas s.fat32.fs p)

section Deleting

variable {s u s' : System} {n : Nat} {v : Volume} {cs : List Nat} {p : Place}
  {r : Int}

/-- Whether the entry is still there depends on one write. -/
private theorem removeEntry_inUse_iff (hu : During s n v u) (hfs : v.fs = s.fat32.fs)
    (hinfo : v.InfoApart) (hp : v.fs.InRange p.1) (hindex : p.2 < 128)
    (huse : (v.entry p).InUse) (hrun : removeEntry p.1 p.2 u = some (r, s')) :
    (volumeOf s').link = v.link ∧
      (((volumeOf s').entry p).InUse ↔ ¬ Works s n (deleteLbas s.fat32.fs p)) := by
  rw [deleteLbas, ← hfs, works_append, clusterLbas_length]
  obtain ⟨read, middle, hread, hrest⟩ := Program.exists_of_bind hrun
  obtain ⟨rfl, hmiddle⟩ := (readCluster_attempts hp).deterministic hu hread
  by_cases hworks : Works s n (clusterLbas v.fs p.1)
  · rw [if_pos hworks] at hrest
    rw [ended_of_works hworks, clusterLbas_length] at hmiddle
    obtain ⟨status, last, hwrite, hrest⟩ := Program.exists_of_bind hrest
    obtain ⟨rfl, hlast⟩ :=
      (writeCluster_attempts _ hp).deterministic hmiddle hwrite
    -- what comes after the write concerns the FSInfo sectors only
    obtain ⟨hlink, hdata⟩ : (volumeOf s').link = (volumeOf last).link ∧
        (volumeOf s').data = (volumeOf last).data := by
      have hapart : (volumeOf last).InfoApart := by
        rw [hlast.volume_eq]
        exact hinfo.setData _ _
      rw [← hlast.volume_eq] at hlast
      by_cases hstatus : Works s (n + 8) (clusterLbas v.fs p.1)
      · rw [if_pos hstatus, if_neg (by decide)] at hrest
        obtain ⟨_, t, hupdate, hpure⟩ := Program.exists_of_bind hrest
        obtain ⟨-, rfl⟩ := Prod.mk.inj (Option.some.inj hpure)
        obtain ⟨m, info, hattempt⟩ := updateFsinfoIfKnown_attempts (s := s)
          (n := ended s (n + 8) (clusterLbas v.fs p.1)) hapart unknownCount
        obtain ⟨-, ht⟩ := hattempt.deterministic hlast hupdate
        rw [ht.volume_eq]
        exact ⟨rfl, rfl⟩
      · rw [if_neg hstatus, if_pos (by decide)] at hrest
        obtain ⟨-, rfl⟩ := Prod.mk.inj (Option.some.inj hrest)
        exact ⟨rfl, rfl⟩
    refine ⟨by rw [hlink, hlast.volume_eq, Volume.setData_link], ?_⟩
    have hentry : (volumeOf s').entry p = (volumeOf last).entry p := by
      rw [Volume.entry, Volume.entry, hdata]
    rw [hentry, hlast.volume_eq, entry_of_partial _ _ _ hindex]
    have hlength : p.2 / 16 < (clusterLbas v.fs p.1).length := by
      rw [clusterLbas_length]
      omega
    have hwritten := lt_worked_iff (s := s) (n := n + 8) hlength
    simp only [hwritten, hworks, true_and]
    split
    · next hdone =>
        exact iff_of_false (fun h => h.2 (entryAt_markDeleted_self _ _))
          (not_not.mpr hdone)
    · next hleft => exact iff_of_true huse hleft
  · rw [if_neg hworks] at hrest
    obtain ⟨-, rfl⟩ := Prod.mk.inj (Option.some.inj hrest)
    rw [hmiddle.volume_eq]
    exact ⟨rfl, iff_of_true huse fun h => hworks h.1⟩

/-- After the test, only faults that spare both writes save the directory. -/
private theorem removal_kept_iff (hu : During s n v u) (hfs : v.fs = s.fat32.fs)
    (hinfo : v.InfoApart) (hcs : v.Chain (v.entry p).firstCluster cs) (hne : cs ≠ [])
    (hp : v.fs.InRange p.1) (hindex : p.2 < 128) (huse : (v.entry p).InUse)
    (hrun : (do
      let _ ← freeCluster (v.entry p).firstCluster
      removeEntry p.1 p.2) u = some (r, s')) :
    (volumeOf s').Kept cs p ↔ Harmless s n (v.entry p).firstCluster p := by
  have hlayout := hu.layout
  have hhead := hcs.head_mem hne
  have hc := (hcs.inRange _ hhead).2
  obtain ⟨status, middle, hfree, hrest⟩ := Program.exists_of_bind hrun
  rw [Harmless, freeLbas, ← hfs]
  -- a link that was not written leaves it to the entry
  have hentry : ∀ m, During s m v middle →
      ((volumeOf s').Kept cs p ↔ ¬ Works s m (deleteLbas v.fs p)) := by
    intro m hm
    obtain ⟨hlink, hiff⟩ := removeEntry_inUse_iff hm hfs hinfo hp hindex huse hrest
    rw [hfs, ← hiff]
    refine ⟨fun h => h.inUse, fun h => ⟨fun c hmem => ?_, h⟩⟩
    rw [hlink]
    exact hcs.link_ne_free hmem
  by_cases hread : Fails s n (v.fs.fatSector (v.entry p).firstCluster)
  · have hattempt : Attempts s n v (freeCluster (v.entry p).firstCluster) (-1)
        (n + 1) v := Runs.bind (setNextCluster_attempts_unread free hc hread)
      (Runs.if_neg (by decide) (Runs.pure _ _))
    obtain ⟨-, hm⟩ := hattempt.deterministic hu hfree
    rw [hentry _ hm]
    simp [Works, ended, hread]
  by_cases hwrite : Fails s (n + 1) (v.fs.fatSector (v.entry p).firstCluster)
  · have hattempt : Attempts s n v (freeCluster (v.entry p).firstCluster) (-1)
        (n + 2) v :=
      Runs.bind (setNextCluster_attempts_unwritten free hc hread hwrite)
        (Runs.if_neg (by decide) (Runs.pure _ _))
    obtain ⟨-, hm⟩ := hattempt.deterministic hu hfree
    rw [hentry _ hm]
    simp [Works, ended, hread, hwrite]
  · have hattempt :=
      setNextCluster_attempts_linked (s := s) (n := n) free hc hread hwrite
    obtain ⟨result', linked, hset, hcount⟩ := Program.exists_of_bind hfree
    obtain ⟨rfl, hlinked⟩ := hattempt.deterministic hu hset
    refine iff_of_false (fun hkept => ?_) fun h => h.1 ⟨hread, hwrite, trivial⟩
    -- nothing that follows touches the FAT
    obtain ⟨m, w, hm, hwfs, hlink, hentry, hapart⟩ : ∃ m w, During s m w middle ∧
        w.fs = v.fs ∧ w.link = (v.setLink (v.entry p).firstCluster free).link ∧
        w.entry p = v.entry p ∧ w.InfoApart := by
      by_cases hcopy : CopyFails s (n + 2) v.fs (v.entry p).firstCluster
      · rw [if_pos hcopy, if_neg (by decide)] at hcount
        obtain ⟨-, rfl⟩ := Prod.mk.inj (Option.some.inj hcount)
        exact ⟨_, _, hlinked, rfl, rfl, rfl, hinfo.of_eq rfl rfl id⟩
      · rw [if_neg hcopy, if_pos rfl, modifyGiven_eq] at hcount
        obtain ⟨_, t, hmodify, hpure⟩ := Program.exists_of_bind hcount
        obtain ⟨-, rfl⟩ := Prod.mk.inj (Option.some.inj hpure)
        obtain ⟨-, hm⟩ := (modifyCount_attempts countGiven).deterministic hlinked
          hmodify
        exact ⟨_, _, hm, rfl, rfl, rfl, hinfo.of_eq rfl rfl fun hunknown =>
          (if_neg (not_not.mpr hunknown)).trans hunknown⟩
    have hlast := (removeEntry_inUse_iff hm (hwfs.trans hfs) hapart (hwfs ▸ hp)
      hindex (hentry ▸ huse) hrest).1
    refine hkept.allocated _ hhead ?_
    rw [hlast, hlink, Volume.setLink]
    exact Function.update_self _ _ _

/-! ## The call -/

theorem Volume.Directory.reach_named {parent : Nat} {l : List Nat}
    {dirname : List UInt8} (hdir : v.Directory parent l) (hp : p ∈ places l)
    (hnamed : v.Named (nameToFat dirname) p) : v.Reach (.entry p) := by
  obtain ⟨node, hn, hnDir, rfl⟩ := hdir.live
  exact .child hn ⟨hnDir, ⟨l, hdir.chain, hp⟩, hnamed.1,
    not_isDot_of_name hnamed.2.2⟩

theorem lookup_attempts {parent : Nat} {l : List Nat} {dirname : List UInt8}
    (hlayout : v.fs.Layout) (hwf : v.WellFormed) (hdir : v.Directory parent l)
    (hp : p ∈ places l) (hnamed : v.Named (nameToFat dirname) p) :
    Attempts s n v (findEntry parent (nameToFat dirname))
      (if Works s n (v.lookupLbas l p) then some (v.locate p) else none)
      (ended s n (v.lookupLbas l p)) v := by
  obtain ⟨last, hwalk, -⟩ := hdir.chain.ends
  have hrange := hdir.chain.inRange
  have hlookup := (Volume.lookup_eq_some_iff (hdir.orderly hwf)).mpr ⟨hp, hnamed⟩
  obtain ⟨after, hsplit, hmore, hfound⟩ :=
    Volume.lookup_split hdir.chain.nodup hlookup
  rw [hsplit] at hwalk hrange
  exact findEntry_attempts hlayout hwalk hrange hmore hfound

theorem childTest_attempts {q : Place} (hlayout : v.fs.Layout) (hwf : v.WellFormed)
    (hreach : v.Reach (.entry p)) (hcs : v.Chain (v.entry p).firstCluster cs)
    (hchild : v.Child (.entry p) q) :
    ∃ r : Int, (r = 0 ↔ Works s n (v.childLbas cs)) ∧
      Attempts s n v (isDirectoryEmpty (v.entry p).firstCluster) r
        (ended s n (v.childLbas cs)) v := by
  obtain ⟨last, hwalk, -⟩ := hcs.ends
  have hrange := hcs.inRange
  obtain ⟨k, hk, hq⟩ := hchild.mem
  obtain rfl := hcs.unique hk
  obtain ⟨c, after, hsplit, hhead, hnone, hzero⟩ := Volume.child_split
    (hwf.orderly _ _ hreach hchild.isDir hk) hq hchild.inUse hchild.notDot
  rw [Volume.childLbas, hhead]
  rw [hsplit] at hwalk hrange
  exact isDirectoryEmpty_attempts hlayout hwalk hrange hnone hzero

/--
A directory with a child is kept if and only if the scan for the child is not
disturbed, or the device also refuses what would remove the directory.
-/
theorem deleteDirectoryIn_keeps_iff {parent : Nat} {l : List Nat} {q : Place}
    {dirname : List UInt8} (hs : s.Present) (hlayout : s.fat32.fs.Layout)
    (hinfo : (volumeOf s).InfoApart) (hwf : (volumeOf s).WellFormed)
    (hdir : (volumeOf s).Directory parent l) (hp : p ∈ places l) (hnamed : (volumeOf s).Named (nameToFat dirname) p)
    (hcs : (volumeOf s).Chain ((volumeOf s).entry p).firstCluster cs)
    (hchild : (volumeOf s).Child (.entry p) q)
    (hrun : deleteDirectoryIn parent dirname s = some (r, s')) :
    (volumeOf s').Kept cs p ↔
      (Works s 0 ((volumeOf s).lookupLbas l p) →
        Works s ((volumeOf s).lookupLbas l p).length ((volumeOf s).childLbas cs) ∨
        Harmless s (ended s ((volumeOf s).lookupLbas l p).length
          ((volumeOf s).childLbas cs)) ((volumeOf s).entry p).firstCluster p) := by
  have hfs : (volumeOf s).fs = s.fat32.fs := rfl
  have hstart := During.start hs hlayout
  obtain ⟨hmem, hindex⟩ := mem_places.mp hp
  have hreach := hdir.reach_named hp hnamed
  have hne : cs ≠ [] := by
    rintro rfl
    obtain ⟨k, hk, hq⟩ := hchild.mem
    obtain rfl := hcs.unique hk
    simp [places] at hq
  have hkept : ∀ {m : Nat}, During s m (volumeOf s) s' → (volumeOf s').Kept cs p := by
    intro m hm
    rw [hm.volume_eq]
    exact ⟨fun c hc => hcs.link_ne_free hc, hnamed.1⟩
  -- the call up to the lookup
  unfold deleteDirectoryIn at hrun
  rw [Program.bind_of_some (getFs_apply s), hlayout.initialized] at hrun
  obtain ⟨found, u, hfind, hrest⟩ := Program.exists_of_bind hrun
  obtain ⟨rfl, hu⟩ :=
    (lookup_attempts hlayout hwf hdir hp hnamed).deterministic hstart hfind
  by_cases hlookup : Works s 0 ((volumeOf s).lookupLbas l p)
  · rw [if_pos hlookup] at hrest
    rw [ended_of_works hlookup, Nat.zero_add] at hu
    simp only [hlookup, true_imp_iff]
    have hisDir : ((volumeOf s).entry p).HasAttr attrDirectory := hchild.isDir
    change (if ¬ ((volumeOf s).entry p).HasAttr attrDirectory then _ else
      isDirectoryEmpty ((volumeOf s).entry p).firstCluster >>= _) u = _ at hrest
    rw [if_neg (not_not.mpr hisDir)] at hrest
    obtain ⟨result, w, htest, hrest⟩ := Program.exists_of_bind hrest
    obtain ⟨expected, hzero, hattempt⟩ :=
      childTest_attempts (s := s) (n := ((volumeOf s).lookupLbas l p).length)
        hlayout hwf hreach hcs hchild
    obtain ⟨rfl, hw⟩ := hattempt.deterministic hu htest
    by_cases hscan : Works s ((volumeOf s).lookupLbas l p).length
        ((volumeOf s).childLbas cs)
    · rw [if_pos (hzero.mpr hscan)] at hrest
      obtain ⟨_, x, htext, hlast⟩ := Program.exists_of_bind hrest
      obtain ⟨-, hx⟩ := (text_attempts _).deterministic hw htext
      obtain ⟨-, rfl⟩ := Prod.mk.inj (Option.some.inj hlast)
      exact iff_of_true (hkept hx) (.inl hscan)
    · rw [if_neg fun h => hscan (hzero.mp h)] at hrest
      simp only [hscan, false_or]
      exact removal_kept_iff hw hfs hinfo hcs hne (hdir.chain.inRange _ hmem) hindex
        hnamed.1 hrest
  · rw [if_neg hlookup] at hrest
    obtain ⟨_, x, htext, hlast⟩ := Program.exists_of_bind hrest
    obtain ⟨-, hx⟩ := (text_attempts _).deterministic hu htext
    obtain ⟨-, rfl⟩ := Prod.mk.inj (Option.some.inj hlast)
    exact iff_of_true (hkept hx) fun h => absurd h hlookup

end Deleting

/-! ## A directory with one file -/

theorem exists_file_in_directory :
    ∃ s p q, s.device.FaultFree ∧ s.fat32.fs.Layout ∧ (volumeOf s).InfoApart ∧
      (volumeOf s).WellFormed ∧ (volumeOf s).Directory 2 [2] ∧ p ∈ places [2] ∧
      (volumeOf s).Named (nameToFat roundDirectory) p ∧
      (volumeOf s).Chain ((volumeOf s).entry p).firstCluster [3] ∧
      (volumeOf s).Child (.entry p) q := by
  have h : Formattable (100 : UInt64).toNat := by decide
  obtain ⟨v, ⟨s, -, hrep⟩, hlayout, hfresh⟩ :=
    exists_reaches_fresh h none fun _ _ => True
  have hleaked : v.Leaked 8 0 := hfresh.leaked hlayout (by decide)
  obtain ⟨w, p, hcreate, hw, hdots, hslot⟩ := hleaked.create
  obtain ⟨x, hwrite, hx, q, hq, huse, hdot⟩ :=
    hw.write hdots hslot (show ([7] : List UInt8).length < 4294967296 by decide)
      (by decide) (by decide)
  obtain ⟨t, -, hrep⟩ := hcreate s hrep
  obtain ⟨u, -, hrep⟩ := hwrite t hrep
  obtain ⟨hu, hlayout, rfl⟩ := represents_iff.mp hrep
  have hroot : (volumeOf u).first .root = 2 := hx.rootCluster
  have hnamed : (volumeOf u).Named (nameToFat roundDirectory) p := by
    refine ⟨hx.inUse, ?_, ?_⟩
    · rw [hx.entry]
      simp only [DirEntry.HasAttr, DirEntry.make]
      decide
    · rw [hx.entry]
      rfl
  exact ⟨u, p, q, hu, hlayout, hx.infoApart, hx.regular.wellFormed,
    ⟨⟨.root, .root, trivial, hroot⟩, hroot ▸ hx.chain_root⟩, hx.mem, hnamed, hx.chain,
    ⟨hx.isDir, ⟨[3], hx.chain, hq⟩, huse, hdot⟩⟩

/-- Without a fault the scan sees the file, and nothing is deleted. -/
theorem directory_kept_without_faults :
    ∃ s s' p, deleteDirectoryIn 2 roundDirectory s = some (-1, s') ∧
      (volumeOf s').Kept [3] p := by
  obtain ⟨s, p, q, hs, hlayout, hinfo, hwf, hdir, hp, hnamed, hcs, hchild⟩ :=
    exists_file_in_directory
  have hworks : ∀ n lbas, Works s n lbas := fun n lbas =>
    works_of_not_fails fun k lba _ _ => by simp [Fails, hs.faults]
  have hreach := hdir.reach_named hp hnamed
  have hlookup := lookup_attempts (s := s) (n := 0) hlayout hwf hdir hp hnamed
  obtain ⟨r, hr, htest⟩ := childTest_attempts (s := s)
    (n := ended s 0 ((volumeOf s).lookupLbas [2] p)) hlayout hwf hreach hcs hchild
  rw [hr.mpr (hworks _ _)] at htest
  rw [if_pos (hworks _ _)] at hlookup
  have hdelete : Attempts s 0 (volumeOf s) (deleteDirectoryIn 2 roundDirectory) (-1)
      _ (volumeOf s) :=
    Runs.bind getFs_attempts (Runs.if_pos hlayout.initialized (Runs.bind hlookup
      (Runs.if_neg (not_not.mpr hchild.isDir) (Runs.bind htest (Runs.if_pos rfl
        (Runs.bind (text_attempts _) (Runs.pure _ _)))))))
  obtain ⟨s', hrun, -⟩ := hdelete s (During.start hs.present hlayout)
  exact ⟨s, s', p, hrun, (deleteDirectoryIn_keeps_iff hs.present hlayout hinfo hwf hdir
    hp hnamed hcs hchild hrun).mpr fun _ => .inl (hworks _ _)⟩

/-- One failed read of the directory, and all that follows works. -/
theorem directory_lost_on_one_fault :
    ¬ ∀ (s s' : System) (parent : Nat) (l cs : List Nat) (p q : Place)
      (dirname : List UInt8) (r : Int), s.Present → s.fat32.fs.Layout →
      (volumeOf s).InfoApart → (volumeOf s).WellFormed →
      (volumeOf s).Directory parent l → Ascii dirname → p ∈ places l → (volumeOf s).Named (nameToFat dirname) p →
      (volumeOf s).Chain ((volumeOf s).entry p).firstCluster cs →
      (volumeOf s).Child (.entry p) q →
      deleteDirectoryIn parent dirname s = some (r, s') →
      (volumeOf s').Kept cs p := by
  intro hclaim
  obtain ⟨t, p, q, ht, hlayout, hinfo, hwf, hdir, hp, hnamed, hcs, hchild⟩ :=
    exists_file_in_directory
  -- transfers 0 to 7 read the root, and the one after them fails
  obtain ⟨s, hs⟩ : ∃ s : System, s = { t with
    device := { t.device with faults := fun n _ => decide (n = 8) } } := ⟨_, rfl⟩
  have hvolume : volumeOf s = volumeOf t := by
    rw [hs]
    rfl
  have hpresent : s.Present := by
    rw [hs]
    exact ht.present
  have hfails : ∀ n lba, Fails s n lba ↔ n = 8 := by
    intro n lba
    simp [Fails, hs]
  have hlayout' : s.fat32.fs.Layout := by
    rw [hs]
    exact hlayout
  have hfirst : ((volumeOf t).entry p).firstCluster = 3 :=
    List.mem_singleton.mp (hcs.head_mem (by simp))
  have hreach := hdir.reach_named hp hnamed
  have hp1 : p.1 = 2 := List.mem_singleton.mp (mem_places.mp hp).1
  have hlbas : (volumeOf t).lookupLbas [2] p = clusterLbas (volumeOf t).fs 2 := by
    rw [Volume.lookupLbas, hp1]
    rfl
  have hworks : Works s 0 ((volumeOf t).lookupLbas [2] p) := by
    rw [hlbas]
    apply works_of_not_fails
    intro k lba _ hk
    rw [clusterLbas_length] at hk
    rw [hfails]
    omega
  have hlookup := lookup_attempts (s := s) (n := 0) hlayout hwf hdir hp hnamed
  rw [if_pos hworks, ended_of_works hworks, hlbas, clusterLbas_length] at hlookup
  have hchildLbas : (volumeOf t).childLbas [3] = clusterLbas (volumeOf t).fs 3 := by
    have hbare : ¬ (volumeOf t).Bare 3 := by
      intro hbare
      obtain ⟨k, hk, hq⟩ := hchild.mem
      obtain rfl := hcs.unique hk
      exact hchild.notDot (hbare q (by simpa [places] using hq) hchild.inUse)
    rw [Volume.childLbas, List.takeWhile_cons_of_neg (by simpa using hbare),
      List.dropWhile_cons_of_neg (by simpa using hbare)]
    rfl
  have hmissed : Fails s 8 ((volumeOf t).fs.clusterBeginLba + 8 * (3 - 2) + 0) :=
    (hfails _ _).mpr rfl
  have hnine : ended s 8 (clusterLbas (volumeOf t).fs 3) = 9 := if_pos hmissed
  obtain ⟨r, hr, htest⟩ := childTest_attempts (s := s) (n := 8) hlayout hwf
    hreach hcs hchild
  rw [hchildLbas] at hr htest
  rw [hnine] at htest
  have hnonzero : r ≠ 0 := fun h => (hr.mp h).1 hmissed
  -- from the next transfer on, the device works
  have hrest : ∀ u, During s 9 (volumeOf t) u → Represents u (volumeOf t) := by
    rintro u ⟨part, hu, hpart⟩
    refine ⟨part, ⟨⟨hu.present, ?_⟩, hu.statics, hu.sectors⟩, hpart⟩
    funext m lba
    rw [hu.faults, hs]
    exact decide_eq_false (by omega)
  obtain ⟨u, hfind, hu⟩ := hlookup s (hvolume ▸ During.start hpresent hlayout')
  obtain ⟨w, htest, hw⟩ := htest u hu
  have hthree := hcs.inRange 3 (by simp)
  have hremove : Executes (volumeOf t) (do
      let _ ← freeCluster 3
      removeEntry p.1 p.2) 0 ((volumeOf t).removed p [3]) :=
    Runs.bind (freeCluster_executes (volumeOf t) hthree.2)
      (removeEntry_executes [3] hinfo (hdir.chain.inRange p.1 (by simp [hp1])))
  obtain ⟨s', hremoved, hs'⟩ := hremove w (hrest w hw)
  have hrun : deleteDirectoryIn 2 roundDirectory s = some (0, s') := by
    have hisDir : ((volumeOf t).entry p).HasAttr attrDirectory := hchild.isDir
    unfold deleteDirectoryIn
    rw [Program.bind_of_some (getFs_apply s), hlayout'.initialized]
    refine (Program.bind_of_some hfind).trans ?_
    change (if ¬ ((volumeOf t).entry p).HasAttr attrDirectory then _ else
      isDirectoryEmpty ((volumeOf t).entry p).firstCluster >>= _) u = _
    rw [if_neg (not_not.mpr hisDir), Program.bind_of_some htest, if_neg hnonzero]
    change (do
      let _ ← freeCluster ((volumeOf t).entry p).firstCluster
      removeEntry p.1 p.2) w = _
    rw [hfirst]
    exact hremoved
  have hkept := hclaim s s' 2 [2] [3] p q roundDirectory 0 hpresent hlayout'
    (hvolume ▸ hinfo) (hvolume ▸ hwf) (hvolume ▸ hdir) roundDirectory_ascii hp (hvolume ▸ hnamed)
    (hvolume ▸ hcs) (hvolume ▸ hchild) hrun
  obtain ⟨-, -, hremovedVolume⟩ := represents_iff.mp hs'
  obtain ⟨node, hn, hnDir, hnFirst⟩ := hdir.live
  have hchange := Volume.removed_change hn hnDir (hnFirst ▸ hdir.chain) hp hnamed.1
    (not_isDot_of_name hnamed.2.2) hcs
  refine hkept.allocated 3 (by simp) ?_
  rw [hremovedVolume, hchange.link 3 (by simp)]
  simp

end EntropyOS.Fat32
