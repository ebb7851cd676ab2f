import EntropyOS.Fat32.Rounds

/-!
# Numbering the transfers of a write

`fat32_write_file_in` goes on after most faults of the FAT, and each of them
shifts the transfers that follow.  The functions of this file follow its calls
over the first FAT and a pattern of faults, and count transfers.
-/

namespace EntropyOS.Fat32

open EntropyOS.Foundation

/-! ## The directory -/

/-- How many sectors the walk over the clusters `l` of a directory reads. -/
def Volume.slotReads (v : Volume) (skip : Nat → Nat → DirEntry → Bool) (name : Name) :
    List Nat → Option Slot → Nat
  | [], _ => 0
  | c :: l, slot =>
      match scanIn (skip c) name c (v.data c) 128 0 slot with
      | .more slot => 9 + v.slotReads skip name l slot
      | _ => 8

/--
The clusters that a walk over `l` comes to when it starts with transfer `n`: it
ends where the FAT cannot be read.
-/
def seen (s : System) (fs : Fs) : (n : Nat) → List Nat → List Nat
  | _, [] => []
  | n, c :: l =>
      if Fails s (n + 8) (fs.fatSector c) then [c] else c :: seen s fs (n + 9) l

theorem seen_prefix (s : System) (fs : Fs) (n : Nat) (l : List Nat) :
    seen s fs n l <+: l := by
  induction l generalizing n with
  | nil => exact List.prefix_rfl
  | cons c l ih =>
      rw [seen]
      split
      · exact ⟨l, rfl⟩
      · exact (List.prefix_cons_inj c).mpr (ih (n + 9))

theorem Volume.slotAt_injective (v : Volume) : Function.Injective v.slotAt := by
  intro p q h
  simp only [Volume.slotAt, Slot.mk.injEq] at h
  exact Prod.ext h.1 h.2.1

/-- A walk that is not given up chooses among the clusters it comes to. -/
theorem findSlot_seen {s u w : System} {v : Volume} {n first last : Nat}
    {l : List Nat} {skip : Nat → Nat → DirEntry → Bool} {name : Name}
    (slot : Option Place) {search : SlotSearch} (hu : During s n v u)
    (hwalk : Walk v.link Live first l last) (hrange : ∀ c ∈ l, v.fs.InRange c)
    (hrun : findSlot skip name first (slot.map v.slotAt) u = some (search, w))
    (hread : search ≠ .unreadable) :
    search = v.search (v.choose skip name (places (seen s v.fs n l)) slot) ∧
      During s (n + v.slotReads skip name (seen s v.fs n l) (slot.map v.slotAt)) v w := by
  have hstop : ∀ {cluster : Nat} {found : Option Place} {u : System},
      ¬ Live cluster → findSlot skip name cluster (found.map v.slotAt) u =
        some (search, w) → search = v.search (.free found) ∧ u = w := by
    intro cluster found u hnot h
    rw [findSlot, if_neg hnot] at h
    obtain ⟨hsearch, hu⟩ := Prod.mk.inj (Option.some.inj h)
    exact ⟨hsearch.symm, hu⟩
  induction hwalk generalizing n slot u with
  | stop hnot =>
      obtain ⟨hsearch, rfl⟩ := hstop hnot hrun
      exact ⟨hsearch, hu⟩
  | @step c last l hlive _ ih =>
      have hc := hrange c (by simp)
      have hscan := fun rest => v.choose_placesFrom skip name c 0 128 rest slot
      rw [findSlot, if_pos hlive] at hrun
      obtain ⟨read, middle, hcluster, hrun⟩ := Program.exists_of_bind hrun
      obtain ⟨rfl, hmiddle⟩ := (readCluster_attempts hc).deterministic hu hcluster
      by_cases hworks : Works s n (clusterLbas v.fs c)
      · rw [if_pos hworks] at hrun
        rw [ended_of_works hworks, clusterLbas_length] at hmiddle
        obtain ⟨fs, _, hfs, hrun⟩ := Program.exists_of_bind hrun
        obtain ⟨rfl, rfl⟩ := Prod.mk.inj (Option.some.inj hfs)
        rw [hmiddle.fs, hmiddle.layout.entriesPerCluster_eq] at hrun
        -- the clusters behind this one do not matter where the walk ends here
        obtain ⟨rest, hseen⟩ : ∃ rest, seen s v.fs n (c :: l) = c :: rest := by
          rw [seen]
          split
          · exact ⟨[], rfl⟩
          · exact ⟨_, rfl⟩
        cases hresult : scanIn (skip c) name c (v.data c) 128 0
            (slot.map v.slotAt) with
        | found i =>
            have hchoice := hscan (places rest)
            rw [hresult] at hrun hchoice
            obtain ⟨rfl, rfl⟩ := Prod.mk.inj (Option.some.inj hrun)
            rw [hseen, places_cons, hchoice, Volume.slotReads, hresult]
            exact ⟨rfl, hmiddle⟩
        | stop found =>
            have hchoice := hscan (places rest)
            rw [hresult] at hrun hchoice
            obtain ⟨rfl, rfl⟩ := Prod.mk.inj (Option.some.inj hrun)
            obtain ⟨p, rfl, hchoice⟩ := hchoice
            rw [hseen, places_cons, hchoice, Volume.slotReads, hresult]
            exact ⟨rfl, hmiddle⟩
        | more found =>
            rw [hresult] at hrun hscan
            obtain ⟨next, after, hnext, hrun⟩ := Program.exists_of_bind hrun
            obtain ⟨rfl, hafter⟩ :=
              (getNextCluster_attempts hc.2).deterministic hmiddle hnext
            by_cases hfat : Fails s (n + 8) (v.fs.fatSector c)
            · obtain ⟨p, rfl, hchoice⟩ := hscan (places [])
              rw [if_pos hfat] at hrun
              obtain ⟨rfl, rfl⟩ := hstop eoc_not_live hrun
              rw [seen, if_pos hfat, places_cons, hchoice, Volume.slotReads, hresult]
              exact ⟨rfl, hafter⟩
            · obtain ⟨p, rfl, hchoice⟩ := hscan (places (seen s v.fs (n + 9) l))
              rw [if_neg hfat] at hrun
              have hrest := ih (n := n + 9) p hafter
                (fun d hd => hrange d (List.mem_cons_of_mem _ hd)) hrun
              rw [seen, if_neg hfat, places_cons, hchoice, Volume.slotReads, hresult]
              rwa [Nat.add_assoc n 9] at hrest
      · rw [if_neg hworks] at hrun
        obtain ⟨_, _, -, hrun⟩ := Program.exists_of_bind hrun
        obtain ⟨rfl, -⟩ := Prod.mk.inj (Option.some.inj hrun)
        exact absurd rfl hread

/-! ## The FAT -/

/-- From transfer `n` on, `fat32_set_next_cluster` works. -/
def LinkWorks (s : System) (fs : Fs) (n cluster : Nat) : Prop :=
  Works s n [fs.fatSector cluster, fs.fatSector cluster] ∧
    ¬ CopyFails s (n + 2) fs cluster

instance (s : System) (fs : Fs) (n cluster : Nat) :
    Decidable (LinkWorks s fs n cluster) :=
  inferInstanceAs (Decidable (_ ∧ _))

/-- The next transfer and the first FAT after `fat32_set_next_cluster`. -/
def relinked (s : System) (fs : Fs) (n : Nat) (link : Nat → Nat)
    (cluster next : Nat) : Nat × (Nat → Nat) :=
  if Fails s n (fs.fatSector cluster) then (n + 1, link)
  else if Fails s (n + 1) (fs.fatSector cluster) then (n + 2, link)
  else (if fs.numFats > 1 then n + 3 else n + 2,
    Function.update link cluster (next % 268435456))

theorem relinked_of_ne {s : System} {fs : Fs} {n cluster next d : Nat}
    {link : Nat → Nat} (hne : d ≠ cluster) :
    (relinked s fs n link cluster next).2 d = link d := by
  rw [relinked]
  split
  · rfl
  · split
    · rfl
    · exact Function.update_of_ne hne _ _

/-- The same after the chain `l` is freed. -/
def unlinked (s : System) (fs : Fs) : List Nat → Nat → (Nat → Nat) → Nat × (Nat → Nat)
  | [], n, link => (n, link)
  | c :: l, n, link =>
      let r := relinked s fs (n + 1) link c free
      if Fails s n (fs.fatSector c) then r else unlinked s fs l r.1 r.2

/-- What `fat32_allocate_cluster` finds among `count` clusters, and the same. -/
def claimedFrom (s : System) (fs : Fs) :
    (count cluster n : Nat) → (Nat → Nat) → Nat × Nat × (Nat → Nat)
  | 0, _, n, link => (0, n, link)
  | count + 1, cluster, n, link =>
      if Fails s n (fs.fatSector cluster) ∨ link cluster ≠ free then
        claimedFrom s fs count (cluster + 1) (n + 1) link
      else
        let r := relinked s fs (n + 1) link cluster eoc
        if LinkWorks s fs (n + 1) cluster then (cluster, r)
        else claimedFrom s fs count (cluster + 1) r.1 r.2

def claimed (s : System) (fs : Fs) (n : Nat) (link : Nat → Nat) :
    Nat × Nat × (Nat → Nat) :=
  claimedFrom s fs fs.totalClusters 2 n link

/-- While the transfers work, the first free cluster is taken. -/
theorem claimedFrom_quiet {s : System} {fs : Fs} {n : Nat} {link : Nat → Nat}
    (cluster skipped rest : Nat) (hcopies : fs.numFats > 1)
    (hused : ∀ i < skipped, link (cluster + i) ≠ free)
    (hfree : link (cluster + skipped) = free) (h : Quiet s n (n + skipped + 4)) :
    claimedFrom s fs (skipped + 1 + rest) cluster n link =
      (cluster + skipped, n + skipped + 4,
        Function.update link (cluster + skipped) eoc) := by
  induction skipped generalizing n cluster with
  | zero =>
      have hworks : LinkWorks s fs (n + 1) cluster :=
        ⟨⟨h _ _ (by omega) (by omega), h _ _ (by omega) (by omega), trivial⟩,
          fun hfails => h _ _ (by omega) (by omega) hfails.2⟩
      have hskip : ¬ (Fails s n (fs.fatSector cluster) ∨ link cluster ≠ free) :=
        not_or.mpr ⟨h n _ le_rfl (by omega), not_not.mpr hfree⟩
      rw [show 0 + 1 + rest = rest + 1 by omega, claimedFrom, if_neg hskip]
      simp only [hworks, if_true, relinked, hworks.1.1, hworks.1.2.1, if_false, hcopies]
      rfl
  | succ skipped ih =>
      have hskip : Fails s n (fs.fatSector cluster) ∨ link cluster ≠ free :=
        .inr (hused 0 (by omega))
      have hrest := ih (n := n + 1) (cluster + 1)
        (fun i hi => by
          have hnext := hused (i + 1) (by omega)
          rwa [show cluster + (i + 1) = cluster + 1 + i by omega] at hnext)
        (by rwa [show cluster + 1 + skipped = cluster + (skipped + 1) by omega])
        (fun k lba hlow hhigh => h k lba (by omega) (by omega))
      rw [show skipped + 1 + 1 + rest = skipped + 1 + rest + 1 by omega, claimedFrom,
        if_pos hskip, hrest, show cluster + 1 + skipped = cluster + (skipped + 1) by omega,
        show n + 1 + skipped + 4 = n + (skipped + 1) + 4 by omega]

/--
From transfer `n` on, behind `prev`, the data loop takes `count` clusters below
the end marks, and each time it links one to the cluster before it, the first
FAT can be read and written.  Storing a cluster and reading it back takes 16
transfers.
-/
def RoundsLinked (s : System) (fs : Fs) :
    (count n : Nat) → (Nat → Nat) → (prev : Nat) → Prop
  | 0, _, _, _ => True
  | count + 1, n, link, prev =>
      let r := claimed s fs n link
      let r' := if prev = 0 then r.2 else relinked s fs r.2.1 r.2.2 prev r.1
      r.1 < eoc ∧
        (prev ≠ 0 → Works s r.2.1 [fs.fatSector prev, fs.fatSector prev]) ∧
        RoundsLinked s fs count (r'.1 + 16) r'.2 r.1

instance decidableRoundsLinked (s : System) (fs : Fs) :
    (count n : Nat) → (link : Nat → Nat) → (prev : Nat) →
    Decidable (RoundsLinked s fs count n link prev)
  | 0, _, _, _ => isTrue trivial
  | count + 1, n, link, prev =>
      let r := claimed s fs n link
      let r' := if prev = 0 then r.2 else relinked s fs r.2.1 r.2.2 prev r.1
      have := decidableRoundsLinked s fs count (r'.1 + 16) r'.2 r.1
      inferInstanceAs (Decidable (_ ∧ (_ → _) ∧ _))

/-! ## The driver follows -/

/-- What the program attempts is a matter of the FAT only. -/
def Relinks {α : Type} (s : System) (n : Nat) (v : Volume)
    (program : Program System α) (a : α) (r : Nat × (Nat → Nat)) : Prop :=
  ∃ v', Attempts s n v program a r.1 v' ∧ v'.fs = v.fs ∧ v'.link = r.2

section Relinks

variable {s : System} {n : Nat} {v : Volume} {cluster : Nat}

theorem Relinks.bind {α β : Type} {program : Program System α}
    {next : α → Program System β} {a : α} {b : β} {r r' : Nat × (Nat → Nat)}
    (first : Relinks s n v program a r)
    (second : ∀ v', v'.fs = v.fs → v'.link = r.2 → Relinks s r.1 v' (next a) b r') :
    Relinks s n v (program >>= next) b r' := by
  obtain ⟨v', hfirst, hfs, hlink⟩ := first
  obtain ⟨v'', hsecond, hfs', hlink'⟩ := second v' hfs hlink
  exact ⟨v'', Runs.bind hfirst hsecond, hfs'.trans hfs, hlink'⟩

theorem Relinks.of_attempts {α : Type} {program : Program System α} {a : α} {m : Nat}
    {v' : Volume} (h : Attempts s n v program a m v') (hfs : v'.fs = v.fs) :
    Relinks s n v program a (m, v'.link) :=
  ⟨v', h, hfs, rfl⟩

theorem Relinks.pure {α : Type} {r : Nat × (Nat → Nat)} (a : α)
    (hlink : v.link = r.2) : Relinks s r.1 v (Pure.pure a) a r :=
  ⟨v, Runs.pure _ _, rfl, hlink⟩

theorem Relinks.if_pos {α : Type} {c : Prop} [Decidable c]
    {yes no : Program System α} {a : α} {r : Nat × (Nat → Nat)} (hc : c)
    (h : Relinks s n v yes a r) : Relinks s n v (if c then yes else no) a r := by
  rwa [ite_cond_eq_true _ _ (eq_true hc)]

theorem Relinks.if_neg {α : Type} {c : Prop} [Decidable c]
    {yes no : Program System α} {a : α} {r : Nat × (Nat → Nat)} (hc : ¬ c)
    (h : Relinks s n v no a r) : Relinks s n v (if c then yes else no) a r := by
  rwa [ite_cond_eq_false _ _ (eq_false hc)]

theorem setNextCluster_relinks (next : Nat) (hc : cluster < v.fs.totalClusters + 2) :
    Relinks s n v (setNextCluster cluster next)
      (if LinkWorks s v.fs n cluster then 0 else -1)
      (relinked s v.fs n v.link cluster next) := by
  rw [relinked]
  by_cases hread : Fails s n (v.fs.fatSector cluster)
  · rw [if_neg fun h : LinkWorks s v.fs n cluster => h.1.1 hread, if_pos hread]
    exact .of_attempts (setNextCluster_attempts_unread next hc hread) rfl
  by_cases hwrite : Fails s (n + 1) (v.fs.fatSector cluster)
  · rw [if_neg fun h : LinkWorks s v.fs n cluster => h.1.2.1 hwrite, if_neg hread,
      if_pos hwrite]
    exact .of_attempts (setNextCluster_attempts_unwritten next hc hread hwrite) rfl
  · have hattempt := setNextCluster_attempts_linked next hc hread hwrite
    have hstatus : (if LinkWorks s v.fs n cluster then (0 : Int) else -1) =
        if CopyFails s (n + 2) v.fs cluster then -1 else 0 := by
      simp [LinkWorks, Works, hread, hwrite]
    rw [if_neg hread, if_neg hwrite, hstatus]
    exact .of_attempts hattempt rfl

/-- The count of free clusters is not part of the FAT. -/
theorem modifyCount_relinks (count : Nat → Nat) {r : Nat × (Nat → Nat)}
    (hlink : v.link = r.2) :
    Relinks s r.1 v (modifyFat32 fun st =>
      { st with freeClusters := count st.freeClusters }) () r :=
  ⟨_, modifyCount_attempts count, rfl, hlink⟩

theorem freeCluster_relinks (hc : cluster < v.fs.totalClusters + 2) :
    Relinks s n v (freeCluster cluster) (if LinkWorks s v.fs n cluster then 0 else -1)
      (relinked s v.fs n v.link cluster free) := by
  refine Relinks.bind (setNextCluster_relinks free hc) fun v' hfs hlink => ?_
  by_cases hworks : LinkWorks s v.fs n cluster
  · rw [if_pos hworks, modifyGiven_eq]
    exact Relinks.if_pos rfl (Relinks.bind (modifyCount_relinks countGiven hlink)
      fun w _ hcounted => Relinks.pure _ hcounted)
  · rw [if_neg hworks]
    exact Relinks.if_neg (by decide) (Relinks.pure _ hlink)

theorem freeChain_relinks {first last : Nat} {l : List Nat}
    (hwalk : Walk v.link Live first l last)
    (hrange : ∀ c ∈ l, c < v.fs.totalClusters + 2) :
    Relinks s n v (freeChain first) () (unlinked s v.fs l n v.link) := by
  induction l generalizing n v first with
  | nil =>
      rw [freeChain]
      cases hwalk with
      | stop hnot =>
          exact Relinks.if_neg hnot (Relinks.pure (r := (n, v.link)) _ rfl)
  | cons c l ih =>
      have hnodup := (List.nodup_cons.mp hwalk.nodup).1
      cases hwalk with
      | step hlive htail =>
          have hc := hrange c (by simp)
          rw [freeChain, unlinked]
          refine Relinks.if_pos hlive
            (Relinks.bind (.of_attempts (getNextCluster_attempts hc) rfl) ?_)
          intro w hfs hlink
          change w.link = v.link at hlink
          have hbound : c < w.fs.totalClusters + 2 := hfs ▸ hc
          have hfree := freeCluster_relinks (s := s) (n := n + 1) hbound
          rw [hfs, hlink] at hfree
          refine Relinks.bind hfree fun x hxfs hxlink => ?_
          by_cases hfat : Fails s n (v.fs.fatSector c)
          · rw [if_pos hfat, if_pos hfat, freeChain]
            exact Relinks.if_neg eoc_not_live (Relinks.pure _ hxlink)
          · rw [if_neg hfat, if_neg hfat, ← hxlink, ← hfs, ← hxfs]
            refine ih (htail.congr fun d hd => ?_) fun d hd => ?_
            · rw [hxlink, relinked_of_ne]
              rintro rfl
              exact hnodup hd
            · rw [hxfs, hfs]
              exact hrange d (List.mem_cons_of_mem _ hd)

theorem allocateFrom_relinks {count : Nat} (hend : cluster + count ≤
    v.fs.totalClusters + 2) :
    Relinks s n v (allocateFrom count cluster)
      (claimedFrom s v.fs count cluster n v.link).1
      (claimedFrom s v.fs count cluster n v.link).2 := by
  induction count generalizing cluster n v with
  | zero => exact Relinks.pure (r := (n, v.link)) _ rfl
  | succ count ih =>
      have hc : cluster < v.fs.totalClusters + 2 := by omega
      rw [allocateFrom, claimedFrom]
      refine Relinks.bind (.of_attempts (getNextCluster_attempts hc) rfl) ?_
      intro w hfs hlink
      change w.link = v.link at hlink
      by_cases hskip : Fails s n (v.fs.fatSector cluster) ∨ v.link cluster ≠ free
      · rw [if_pos hskip, ← hlink, ← hfs]
        refine Relinks.if_neg ?_ (ih (by rw [hfs]; omega))
        rw [hlink]
        rcases hskip with hfat | hused
        · rw [if_pos (hfs.symm ▸ hfat)]
          decide
        · split
          · decide
          · exact hused
      · obtain ⟨hfat, hfree⟩ := not_or.mp hskip
        rw [if_neg hskip, if_neg hfat]
        refine Relinks.if_pos (not_not.mp hfree) ?_
        have hbound : cluster < w.fs.totalClusters + 2 := hfs ▸ hc
        have hset := setNextCluster_relinks (s := s) (n := n + 1) eoc hbound
        rw [hfs, hlink] at hset
        refine Relinks.bind hset fun x hxfs hxlink => ?_
        by_cases hworks : LinkWorks s v.fs (n + 1) cluster
        · rw [if_pos hworks, if_pos hworks, modifyTaken_eq]
          exact Relinks.if_pos rfl (Relinks.bind (modifyCount_relinks countTaken hxlink)
            fun y _ hcounted => Relinks.pure _ hcounted)
        · rw [if_neg hworks, if_neg hworks, ← hxlink, ← hfs, ← hxfs]
          exact Relinks.if_neg (by decide) (ih (by rw [hxfs, hfs]; omega))

theorem allocateCluster_relinks (hlayout : v.fs.Layout) :
    Relinks s n v allocateCluster (claimed s v.fs n v.link).1
      (claimed s v.fs n v.link).2 := by
  have hend := hlayout.clustersEnd
  refine Relinks.bind (.of_attempts getFs_attempts rfl) fun w hfs hlink => ?_
  change w.link = v.link at hlink
  rw [u32_of_lt (by omega), claimed, ← hlink, ← hfs]
  exact allocateFrom_relinks (by omega)

end Relinks

/-! ## The data loop -/

section DataLoop

variable {s u w t : System} {n : Nat} {v : Volume} {data : List UInt8} {prev c : Nat}

/-- Data that reads back right took a write and a read of the cluster. -/
theorem writeVerified_during {block : Buf} (hu : During s n v u)
    (hc : v.fs.InRange c) (hrun : writeVerified c block u = some (true, w)) :
    During s (n + 16) (v.setData c block) w := by
  obtain ⟨status, middle, hwrite, hrun⟩ := Program.exists_of_bind hrun
  obtain ⟨rfl, hmiddle⟩ := (writeCluster_attempts block hc).deterministic hu hwrite
  by_cases hworks : Works s n (clusterLbas v.fs c)
  · have hwhole : (v.setData c fun k =>
        if k < 512 * 8 then block k else v.data c k) = v.setData c block :=
      v.setData_congr c fun k hk => if_pos hk
    rw [ended_of_works hworks, worked_of_works hworks, clusterLbas_length, hwhole]
      at hmiddle
    rw [if_pos hworks, if_neg (by decide)] at hrun
    obtain ⟨read, last, hread, hrun⟩ := Program.exists_of_bind hrun
    have hattempt := readCluster_attempts (s := s) (n := n + 8)
      (v := v.setData c block) hc
    obtain ⟨rfl, hlast⟩ := hattempt.deterministic hmiddle hread
    rw [Volume.setData_fs] at hrun hlast
    by_cases hback : Works s (n + 8) (clusterLbas v.fs c)
    · rw [if_pos hback] at hrun
      rw [ended_of_works hback, clusterLbas_length] at hlast
      obtain ⟨fs, _, hfs, hrun⟩ := Program.exists_of_bind hrun
      obtain ⟨rfl, rfl⟩ := Prod.mk.inj (Option.some.inj hfs)
      split at hrun
      · obtain ⟨_, _, -, hrun⟩ := Program.exists_of_bind hrun
        simp at hrun
      · obtain ⟨-, rfl⟩ := Prod.mk.inj (Option.some.inj hrun)
        exact hlast
    · rw [if_neg hback] at hrun
      obtain ⟨_, _, -, hrun⟩ := Program.exists_of_bind hrun
      simp at hrun
  · rw [if_neg hworks, if_pos (by decide)] at hrun
    obtain ⟨_, _, -, hrun⟩ := Program.exists_of_bind hrun
    simp at hrun

/-- A round of the loop goes as the FAT and the faults have it. -/
theorem Round.follows (h : Round data prev u c t w) (hu : During s n v u)
    (hprev : v.Ends prev) :
    c = (claimed s v.fs n v.link).1 ∧
      (prev ≠ 0 → (Stores t prev ↔ Works s (claimed s v.fs n v.link).2.1
        [v.fs.fatSector prev, v.fs.fatSector prev])) ∧
      ∃ x, During s ((if prev = 0 then (claimed s v.fs n v.link).2 else
          relinked s v.fs (claimed s v.fs n v.link).2.1
            (claimed s v.fs n v.link).2.2 prev c).1 + 16) x w ∧
        x.fs = v.fs ∧ x.link = (if prev = 0 then (claimed s v.fs n v.link).2 else
          relinked s v.fs (claimed s v.fs n v.link).2.1
            (claimed s v.fs n v.link).2.2 prev c).2 := by
  obtain ⟨y, hclaim, hyfs, hylink⟩ :=
    allocateCluster_relinks (s := s) (n := n) hu.layout
  obtain ⟨hc, ht⟩ := hclaim.deterministic hu h.allocated
  obtain ⟨z, hz, hextends⟩ := h.extends hu.ready hprev
  have hrange : ∀ x : Volume, x.fs = v.fs → x.fs.InRange c := by
    intro x hxfs
    rw [hxfs]
    exact hextends.inRange
  obtain ⟨x, hstored, hverified⟩ := h.stored
  refine ⟨hc, fun hne => ?_, ?_⟩
  · obtain ⟨part, hreached, -⟩ := id ht
    have hfails := fun m => hreached.fails m (v.fs.fatSector prev)
    rw [Stores, ht.fs, hyfs, hfails 0, hfails 1]
    simp [Works]
  · by_cases hzero : prev = 0
    · rw [if_pos hzero] at hstored
      subst hstored
      rw [if_pos hzero]
      exact ⟨_, writeVerified_during ht (hrange y hyfs) hverified, hyfs, hylink⟩
    · rw [if_neg hzero] at hstored
      rw [if_neg hzero]
      obtain ⟨result, hset⟩ := hstored
      have hprevLt : prev < y.fs.totalClusters + 2 := by
        rw [hyfs]
        exact (hprev.resolve_left hzero).1.2
      obtain ⟨x', hlinked, hxfs, hxlink⟩ := setNextCluster_relinks (s := s)
        (n := (claimed s v.fs n v.link).2.1) c hprevLt
      rw [hyfs, hylink] at hxlink hlinked
      have hx := (hlinked.deterministic ht hset).2
      exact ⟨_, writeVerified_during hx (hrange x' (hxfs.trans hyfs)) hverified,
        hxfs.trans hyfs, hxlink⟩

theorem linksStored_iff {first : Nat} {result : Nat × Nat} (hu : During s n v u)
    (hprev : v.Ends prev) (hrun : writeData data first prev u = some (some result, w)) :
    LinksStored data prev u ↔
      RoundsLinked s v.fs (clustersFor data.length) n v.link prev := by
  obtain ⟨count, hcount⟩ : ∃ count, count = clustersFor data.length := ⟨_, rfl⟩
  induction count generalizing n v u data first prev with
  | zero =>
      have hdata : data = [] := by
        by_contra hne
        rw [clustersFor_drop hne] at hcount
        omega
      rw [← hcount, hdata]
      exact iff_of_true .done trivial
  | succ count ih =>
      have hdata : data ≠ [] := by
        rintro rfl
        simp [clustersFor] at hcount
      rw [clustersFor_drop hdata, Nat.succ_inj] at hcount
      obtain ⟨c, t, x, hround, hrest⟩ := exists_round hu.ready hprev hdata hrun
      obtain ⟨hc, hstores, y, hy, hyfs, hylink⟩ := hround.follows hu hprev
      obtain ⟨z, hz, hextends⟩ := hround.extends hu.ready hprev
      have hends : y.Ends c := by
        rw [← hy.volume_eq, hz.volume]
        exact hextends.ends
      rw [linksStored_round_iff hdata hround, clustersFor_drop hdata, RoundsLinked,
        ih hy hends hrest hcount, hyfs, hylink, hc]
      exact and_congr Iff.rfl (and_congr (forall_congr' hstores) Iff.rfl)

end DataLoop

end EntropyOS.Fat32
