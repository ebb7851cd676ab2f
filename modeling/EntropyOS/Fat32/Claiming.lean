import EntropyOS.Fat32.Attempts
import EntropyOS.Fat32.Allocation

/-!
# Taking and giving back clusters on a device that may fail

Whatever fails, a cluster in use keeps its link unless it is given back, and the
allocator returns a cluster only after its entry in the first FAT is written.
-/

namespace EntropyOS.Fat32

open EntropyOS.Foundation

/-- A mounted volume on a device that may fail. -/
structure Ready (s : System) (v : Volume) : Prop where
  present : s.Present
  layout : s.fat32.fs.Layout
  volume : volumeOf s = v

theorem During.ready {s u : System} {n : Nat} {v : Volume} (h : During s n v u) :
    Ready u v := by
  have hlayout := h.layout
  rw [← h.fs] at hlayout
  obtain ⟨part, hu, -⟩ := id h
  exact ⟨hu.present, hlayout, h.volume_eq⟩

/-- The FAT sector of a cluster can be read and written now. -/
def Stores (s : System) (cluster : Nat) : Prop :=
  ¬ Fails s 0 (s.fat32.fs.fatSector cluster) ∧
    ¬ Fails s 1 (s.fat32.fs.fatSector cluster)

section Steps

variable {s s' : System} {v : Volume}

namespace Ready

theorem during (h : Ready s v) : During s 0 v s := by
  have hstart := During.start h.present h.layout
  rwa [h.volume] at hstart

theorem fs (h : Ready s v) : s.fat32.fs = v.fs := h.during.fs

theorem layout_eq (h : Ready s v) : v.fs.Layout := h.during.layout

/-- What a call attempts from here on is what it does. -/
theorem step {α : Type} {program : Program System α} {a b : α} {n : Nat}
    {v' : Volume} (h : Ready s v) (hattempt : Attempts s 0 v program a n v')
    (hrun : program s = some (b, s')) : b = a ∧ Ready s' v' := by
  obtain ⟨hb, hs'⟩ := hattempt.deterministic h.during hrun
  exact ⟨hb, hs'.ready⟩

theorem getNextCluster {cluster next : Nat} (h : Ready s v)
    (hc : cluster < v.fs.totalClusters + 2)
    (hrun : getNextCluster cluster s = some (next, s')) :
    (next = v.link cluster ∨ next = eoc) ∧ Ready s' v := by
  obtain ⟨rfl, hs'⟩ := h.step (getNextCluster_attempts hc) hrun
  refine ⟨?_, hs'⟩
  split
  · exact .inr rfl
  · exact .inl rfl

/-- A link is stored if and only if the first FAT can be read and written. -/
theorem setNextCluster {cluster next : Nat} {result : Int} (h : Ready s v)
    (hc : cluster < v.fs.totalClusters + 2)
    (hrun : setNextCluster cluster next s = some (result, s')) :
    (Stores s cluster ∧ Ready s' (v.setLink cluster next)) ∨
      (¬ Stores s cluster ∧ result = -1 ∧ Ready s' v) := by
  rw [Stores, h.fs]
  by_cases hread : Fails s 0 (v.fs.fatSector cluster)
  · obtain ⟨hresult, hs'⟩ :=
      h.step (setNextCluster_attempts_unread next hc hread) hrun
    exact .inr ⟨fun hstores => hstores.1 hread, hresult, hs'⟩
  · by_cases hwrite : Fails s 1 (v.fs.fatSector cluster)
    · obtain ⟨hresult, hs'⟩ :=
        h.step (setNextCluster_attempts_unwritten next hc hread hwrite) hrun
      exact .inr ⟨fun hstores => hstores.2 hwrite, hresult, hs'⟩
    · have hattempt := setNextCluster_attempts_linked next hc hread hwrite
      exact .inl ⟨⟨hread, hwrite⟩, (h.step hattempt hrun).2⟩

theorem writeCluster {cluster : Nat} {buf : Buf} {status : Int} (h : Ready s v)
    (hc : v.fs.InRange cluster)
    (hrun : writeCluster cluster buf s = some (status, s')) (hstatus : status = 0) :
    Ready s' (v.setData cluster buf) := by
  obtain ⟨hresult, hs'⟩ := h.step (writeCluster_attempts buf hc) hrun
  have hworks : Works s 0 (clusterLbas v.fs cluster) := by
    by_contra hfails
    rw [if_neg hfails, hstatus] at hresult
    exact absurd hresult (by decide)
  rw [worked_of_works hworks, clusterLbas_length] at hs'
  have hwhole : (v.setData cluster fun k =>
      if k < 512 * 8 then buf k else v.data cluster k) = v.setData cluster buf :=
    v.setData_congr cluster fun k hk => if_pos hk
  rwa [hwhole] at hs'

/-- The driver's own count of free clusters is not on disk. -/
theorem modifyFat32 {f : Statics → Statics} (h : Ready s v)
    (hf : ∀ st, ∃ count, f st = { st with freeClusters := count } ∧
      (st.freeClusters = unknownCount → count = unknownCount))
    (hrun : modifyFat32 f s = some ((), s')) :
    ∃ count, Ready s' (v.setCount count) ∧
      (v.freeClusters = unknownCount → count = unknownCount) := by
  obtain ⟨count, hcount, hunknown⟩ := hf s.fat32
  have hs' : { s with fat32 := f s.fat32 } = s' :=
    (Prod.mk.inj (Option.some.inj hrun)).2
  rw [hcount] at hs'
  subst hs'
  refine ⟨count, ⟨h.present, h.layout, ?_⟩, ?_⟩
  · rw [← h.volume]
    rfl
  · rw [← h.volume]
    exact hunknown

end Ready

/-! ## Giving back -/

/-- Apart from the count, only links of the clusters `l` differ. -/
structure Volume.Relinked (v v' : Volume) (l : List Nat) : Prop where
  fs : v'.fs = v.fs
  data : v'.data = v.data
  link : ∀ c, c ∉ l → v'.link c = v.link c
  info : v.InfoApart → v'.InfoApart

theorem freeCluster_ready {cluster : Nat} {result : Int} (hs : Ready s v)
    (hc : cluster < v.fs.totalClusters + 2)
    (hrun : freeCluster cluster s = some (result, s')) :
    ∃ v', Ready s' v' ∧ v.Relinked v' [cluster] := by
  obtain ⟨status, middle, hset, hrest⟩ := Program.exists_of_bind hrun
  have hcount : ∀ {u : Volume}, Ready middle u → v.Relinked u [cluster] →
      ∃ v', Ready s' v' ∧ v.Relinked v' [cluster] := by
    intro u hmiddle hu
    by_cases hstatus : status = 0
    · rw [if_pos hstatus] at hrest
      obtain ⟨_, last, hmodify, hend⟩ := Program.exists_of_bind hrest
      obtain ⟨-, rfl⟩ := Prod.mk.inj (Option.some.inj hend)
      obtain ⟨count, hlast, hunknown⟩ := hmiddle.modifyFat32 (fun st => by
        split
        · next hknown => exact ⟨_, rfl, fun h => absurd h hknown⟩
        · exact ⟨st.freeClusters, rfl, id⟩) hmodify
      exact ⟨_, hlast, hu.fs, hu.data, hu.link,
        fun h => (hu.info h).of_eq rfl rfl hunknown⟩
    · rw [if_neg hstatus] at hrest
      obtain ⟨-, rfl⟩ := Prod.mk.inj (Option.some.inj hrest)
      exact ⟨u, hmiddle, hu⟩
  rcases hs.setNextCluster hc hset with ⟨-, hmiddle⟩ | ⟨-, -, hmiddle⟩
  · refine hcount hmiddle ⟨rfl, rfl, fun c hne => ?_, fun h => h.of_eq rfl rfl id⟩
    exact Function.update_of_ne (by simpa using hne) _ _
  · exact hcount hmiddle ⟨rfl, rfl, fun _ _ => rfl, id⟩

/-- The loop stops early when it cannot read the FAT. -/
theorem freeChain_ready {first last : Nat} {l : List Nat} (hs : Ready s v)
    (hwalk : Walk v.link Live first l last)
    (hrange : ∀ c ∈ l, c < v.fs.totalClusters + 2)
    (hrun : freeChain first s = some ((), s')) :
    ∃ v', Ready s' v' ∧ v.Relinked v' l := by
  have hstop : ∀ {cluster : Nat} {u : System}, ¬ Live cluster →
      freeChain cluster u = some ((), s') → s' = u := by
    intro cluster u hnot h
    rw [freeChain, if_neg hnot] at h
    exact (Prod.mk.inj (Option.some.inj h)).2.symm
  induction l generalizing s v first with
  | nil =>
      cases hwalk with
      | stop hnot =>
          obtain rfl := hstop hnot hrun
          exact ⟨v, hs, rfl, rfl, fun _ _ => rfl, id⟩
  | cons c l ih =>
      have hnodup := (List.nodup_cons.mp hwalk.nodup).1
      cases hwalk with
      | step hlive htail =>
          have hc := hrange c (by simp)
          rw [freeChain, if_pos hlive] at hrun
          obtain ⟨next, middle, hnext, hrun⟩ := Program.exists_of_bind hrun
          obtain ⟨hlink, hmiddle⟩ := hs.getNextCluster hc hnext
          obtain ⟨_, freed, hfree, hrun⟩ := Program.exists_of_bind hrun
          obtain ⟨w, hw, hchange⟩ := freeCluster_ready hmiddle hc hfree
          have hone : v.Relinked w (c :: l) := ⟨hchange.fs, hchange.data,
            fun d hd => hchange.link d fun h => hd (by simp [List.mem_singleton.mp h]),
            hchange.info⟩
          rcases hlink with rfl | rfl
          · have hwalk' : Walk w.link Live (v.link c) l last := by
              refine htail.congr fun d hd => hchange.link d fun h => hnodup ?_
              rwa [← List.mem_singleton.mp h]
            obtain ⟨v', hv', hrest⟩ := ih hw hwalk' (fun d hd => by
              rw [hchange.fs]
              exact hrange d (List.mem_cons_of_mem _ hd)) hrun
            refine ⟨v', hv', hrest.fs.trans hone.fs, hrest.data.trans hone.data,
              fun d hd => ?_, fun h => hrest.info (hone.info h)⟩
            rw [hrest.link d fun h => hd (List.mem_cons_of_mem _ h), hone.link d hd]
          · obtain rfl := hstop (by decide) hrun
            exact ⟨w, hw, hone⟩

/-! ## Taking -/

/-- The clusters in use keep their links, and all clusters their contents. -/
structure Volume.Keeps (v v' : Volume) : Prop where
  fs : v'.fs = v.fs
  data : v'.data = v.data
  link : ∀ c, v.link c ≠ free → v'.link c = v.link c
  info : v.InfoApart → v'.InfoApart

/-- The cluster was free and is now the end of a chain. -/
structure Volume.Claims (v v' : Volume) (cluster : Nat) : Prop where
  inRange : v.fs.InRange cluster
  free : v.link cluster = free
  ended : v'.link cluster = eoc

theorem Volume.Keeps.trans {u v w : Volume} (h : u.Keeps v) (h' : v.Keeps w) :
    u.Keeps w where
  fs := h'.fs.trans h.fs
  data := h'.data.trans h.data
  link c hc := by
    have hfirst := h.link c hc
    rw [h'.link c (hfirst ▸ hc), hfirst]
  info hinfo := h'.info (h.info hinfo)

private theorem keeps_setLink {cluster : Nat} (next : Nat)
    (hfree : v.link cluster = free) : v.Keeps (v.setLink cluster next) := by
  refine ⟨rfl, rfl, fun c hc => Function.update_of_ne ?_ _ _, fun h => ?_⟩
  · rintro rfl
    exact hc hfree
  · exact h.of_eq rfl rfl id

private theorem allocateFrom_ready {count cluster taken : Nat} (hs : Ready s v)
    (hlow : 2 ≤ cluster) (hend : cluster + count ≤ v.fs.totalClusters + 2)
    (hrun : allocateFrom count cluster s = some (taken, s')) :
    ∃ v', Ready s' v' ∧ v.Keeps v' ∧ (2 ≤ taken → v.Claims v' taken) := by
  induction count generalizing s v cluster with
  | zero =>
      obtain ⟨rfl, rfl⟩ := Prod.mk.inj (Option.some.inj hrun)
      exact ⟨v, hs, ⟨rfl, rfl, fun _ _ => rfl, id⟩, fun h => absurd h (by decide)⟩
  | succ count ih =>
      have hc : cluster < v.fs.totalClusters + 2 := by omega
      obtain ⟨next, middle, hnext, hrun⟩ := Program.exists_of_bind hrun
      obtain ⟨hlink, hmiddle⟩ := hs.getNextCluster hc hnext
      by_cases hfree : next = free
      · rw [if_pos hfree] at hrun
        have hwas : v.link cluster = free := by
          rcases hlink with rfl | rfl
          · exact hfree
          · exact absurd hfree (by decide)
        obtain ⟨status, linked, hset, hrun⟩ := Program.exists_of_bind hrun
        rcases hmiddle.setNextCluster hc hset with ⟨-, hlinked⟩ | ⟨-, hfail, hlinked⟩
        · have hkeeps := keeps_setLink eoc hwas
          have hended : (v.setLink cluster eoc).link cluster = eoc :=
            Function.update_self _ _ _
          by_cases hstatus : status = 0
          · rw [if_pos hstatus] at hrun
            obtain ⟨_, last, hmodify, hrun⟩ := Program.exists_of_bind hrun
            obtain ⟨rfl, rfl⟩ := Prod.mk.inj (Option.some.inj hrun)
            obtain ⟨n, hlast, hunknown⟩ := hlinked.modifyFat32 (fun st => by
              split
              · next hknown => exact ⟨_, rfl, fun h => absurd h hknown.1⟩
              · exact ⟨st.freeClusters, rfl, id⟩) hmodify
            exact ⟨_, hlast, ⟨rfl, rfl, hkeeps.link,
              fun h => (hkeeps.info h).of_eq rfl rfl hunknown⟩,
              fun _ => ⟨⟨hlow, hc⟩, hwas, hended⟩⟩
          · -- only the copy in the second FAT failed; the cluster is lost
            rw [if_neg hstatus] at hrun
            obtain ⟨v', hv', hrest, hclaims⟩ := ih hlinked (by omega) (by
              rw [Volume.setLink_fs]
              omega) hrun
            refine ⟨v', hv', hkeeps.trans hrest, fun htaken => ?_⟩
            obtain ⟨hrange, hfree, hend⟩ := hclaims htaken
            refine ⟨hrange, ?_, hend⟩
            by_contra hused
            rw [hkeeps.link taken hused] at hfree
            exact hused hfree
        · rw [if_neg (by omega)] at hrun
          exact ih hlinked (by omega) (by omega) hrun
      · rw [if_neg hfree] at hrun
        exact ih hmiddle (by omega) (by omega) hrun

/-- A cluster that the allocator returns was free and ends a chain now. -/
theorem allocateCluster_ready {taken : Nat} (hs : Ready s v)
    (hrun : allocateCluster s = some (taken, s')) :
    ∃ v', Ready s' v' ∧ v.Keeps v' ∧ (2 ≤ taken → v.Claims v' taken) := by
  have hclusters := hs.layout_eq.clustersEnd
  have hcount : u32 (s.fat32.fs.totalClusters + 2) - 2 = v.fs.totalClusters := by
    rw [hs.fs, u32_of_lt (by omega)]
    omega
  change allocateFrom (u32 (s.fat32.fs.totalClusters + 2) - 2) 2 s = _ at hrun
  rw [hcount] at hrun
  exact allocateFrom_ready hs le_rfl (by omega) hrun

/-- Data that reads back right is stored, and nothing else has changed. -/
theorem writeVerified_ready {cluster : Nat} {block : Buf} (hs : Ready s v)
    (hc : v.fs.InRange cluster)
    (hrun : writeVerified cluster block s = some (true, s')) :
    Ready s' (v.setData cluster block) := by
  obtain ⟨status, middle, hwrite, hrun⟩ := Program.exists_of_bind hrun
  by_cases hstatus : status = 0
  · have hmiddle := hs.writeCluster hc hwrite hstatus
    rw [if_neg (not_not.mpr hstatus)] at hrun
    obtain ⟨read, last, hread, hrun⟩ := Program.exists_of_bind hrun
    obtain ⟨-, hlast⟩ := hmiddle.step (readCluster_attempts hc) hread
    cases read with
    | none =>
        obtain ⟨_, _, -, hrun⟩ := Program.exists_of_bind hrun
        simp at hrun
    | some verify =>
        obtain ⟨fs, _, hfs, hrun⟩ := Program.exists_of_bind hrun
        obtain ⟨rfl, rfl⟩ := Prod.mk.inj (Option.some.inj hfs)
        split at hrun
        · obtain ⟨_, _, -, hrun⟩ := Program.exists_of_bind hrun
          simp at hrun
        · obtain ⟨-, rfl⟩ := Prod.mk.inj (Option.some.inj hrun)
          exact hlast
  · rw [if_pos hstatus] at hrun
    obtain ⟨_, _, -, hrun⟩ := Program.exists_of_bind hrun
    simp at hrun

end Steps

/-! ## While the transfers work -/

/-- The transfers from `n` up to `m` all work. -/
def Quiet (s : System) (n m : Nat) : Prop :=
  ∀ k lba, n ≤ k → k < m → ¬ Fails s k lba

section Quiet

variable {s : System} {n m : Nat} {v : Volume} {cluster : Nat}

theorem Quiet.works {lbas : List Nat} (h : Quiet s n m) (hm : n + lbas.length ≤ m) :
    Works s n lbas :=
  works_of_not_fails fun k lba hlow hhigh => h k lba hlow (by omega)

theorem modifyTaken_attempts :
    Attempts s n v (modifyFat32 fun st =>
      if st.freeClusters ≠ unknownCount ∧ st.freeClusters > 0 then
        { st with freeClusters := st.freeClusters - 1 }
      else st) () n (v.setCount (countTaken v.freeClusters)) := by
  rw [modifyTaken_eq]
  exact modifyCount_attempts countTaken

theorem setNextCluster_quiet (next : Nat) (hc : cluster < v.fs.totalClusters + 2)
    (hcopies : v.fs.numFats > 1) (h : Quiet s n (n + 3)) :
    Attempts s n v (setNextCluster cluster next) 0 (n + 3)
      (v.setLink cluster next) := by
  have hattempt := setNextCluster_attempts_linked (s := s) (n := n) (v := v) next hc
    (h n _ le_rfl (by omega)) (h (n + 1) _ (by omega) (by omega))
  rwa [if_pos hcopies, if_neg fun hfails =>
    h (n + 2) _ (by omega) (by omega) hfails.2] at hattempt

/-- The allocator reads up to the first free cluster, and links it. -/
theorem allocateFrom_quiet (cluster skipped rest : Nat) (hcopies : v.fs.numFats > 1)
    (hend : cluster + skipped < v.fs.totalClusters + 2)
    (hused : ∀ i < skipped, v.link (cluster + i) ≠ free)
    (hfree : v.link (cluster + skipped) = free) (h : Quiet s n (n + skipped + 4)) :
    Attempts s n v (allocateFrom (skipped + 1 + rest) cluster) (cluster + skipped)
      (n + skipped + 4) (v.take (cluster + skipped)) := by
  induction skipped generalizing n cluster with
  | zero =>
      have hread := getNextCluster_attempts (s := s) (n := n) (v := v) hend
      rw [if_neg (h n _ le_rfl (by omega))] at hread
      rw [show 0 + 1 + rest = rest + 1 by omega]
      refine Runs.bind hread (Runs.if_pos hfree ?_)
      refine Runs.bind (setNextCluster_quiet eoc hend hcopies fun k lba hlow hhigh =>
        h k lba (by omega) (by omega)) (Runs.if_pos rfl ?_)
      exact Runs.bind modifyTaken_attempts (Runs.pure _ _)
  | succ skipped ih =>
      have hread := getNextCluster_attempts (s := s) (n := n) (v := v)
        (show cluster < v.fs.totalClusters + 2 by omega)
      rw [if_neg (h n _ le_rfl (by omega))] at hread
      have hrest := ih (n := n + 1) (cluster + 1) (by omega)
        (fun i hi => by
          have hnext := hused (i + 1) (by omega)
          rwa [show cluster + (i + 1) = cluster + 1 + i by omega] at hnext)
        (by rwa [show cluster + 1 + skipped = cluster + (skipped + 1) by omega])
        (fun k lba hlow hhigh => h k lba (by omega) (by omega))
      rw [show skipped + 1 + 1 + rest = skipped + 1 + rest + 1 by omega]
      rw [show cluster + 1 + skipped = cluster + (skipped + 1) by omega,
        show n + 1 + skipped + 4 = n + (skipped + 1) + 4 by omega] at hrest
      exact Runs.bind hread (Runs.if_neg (hused 0 (by omega)) hrest)

theorem allocateCluster_quiet (hlayout : v.fs.Layout) (hcopies : v.fs.numFats > 1)
    (hc : v.fs.InRange cluster) (hfree : v.link cluster = free)
    (hused : ∀ d, 2 ≤ d → d < cluster → v.link d ≠ free)
    (h : Quiet s n (n + cluster + 2)) :
    Attempts s n v allocateCluster cluster (n + cluster + 2) (v.take cluster) := by
  obtain ⟨hlow, hhigh⟩ := hc
  have hend := hlayout.clustersEnd
  have hsearch := allocateFrom_quiet (s := s) (n := n) (v := v) 2
    (cluster - 2) (v.fs.totalClusters + 1 - cluster) hcopies
    (by omega) (fun i hi => hused _ (by omega) (by omega))
    (by rwa [show 2 + (cluster - 2) = cluster by omega])
    (fun k lba hk hk' => h k lba hk (by omega))
  refine Runs.bind getFs_attempts ?_
  rw [u32_of_lt (by omega)]
  rwa [show cluster - 2 + 1 + (v.fs.totalClusters + 1 - cluster) =
      v.fs.totalClusters + 2 - 2 by omega, show 2 + (cluster - 2) = cluster by omega,
    show n + (cluster - 2) + 4 = n + cluster + 2 by omega] at hsearch

theorem writeCluster_quiet (buf : Buf) (hc : v.fs.InRange cluster)
    (h : Quiet s n (n + 8)) :
    Attempts s n v (writeCluster cluster buf) 0 (n + 8) (v.setData cluster buf) := by
  have hlength := clusterLbas_length v.fs cluster
  have hworks : Works s n (clusterLbas v.fs cluster) := h.works (by omega)
  have hattempt := writeCluster_attempts buf hc (s := s) (n := n)
  rw [if_pos hworks, ended_of_works hworks, worked_of_works hworks, hlength] at hattempt
  have hwhole : (v.setData cluster fun k =>
      if k < 512 * 8 then buf k else v.data cluster k) = v.setData cluster buf :=
    v.setData_congr cluster fun k hk => if_pos hk
  rwa [hwhole] at hattempt

theorem readCluster_quiet (hc : v.fs.InRange cluster) (h : Quiet s n (n + 8)) :
    Attempts s n v (readCluster cluster) (some (v.data cluster)) (n + 8) v := by
  have hlength := clusterLbas_length v.fs cluster
  have hworks : Works s n (clusterLbas v.fs cluster) := h.works (by omega)
  have hattempt := readCluster_attempts hc (s := s) (n := n)
  rwa [if_pos hworks, ended_of_works hworks, hlength] at hattempt

theorem writeVerified_quiet (hlayout : v.fs.Layout) (block : Buf)
    (hc : v.fs.InRange cluster) (h : Quiet s n (n + 16)) :
    Attempts s n v (writeVerified cluster block) true (n + 16)
      (v.setData cluster block) := by
  refine Runs.bind (writeCluster_quiet block hc fun k lba hk hk' =>
    h k lba hk (by omega)) (Runs.if_neg (by decide) ?_)
  refine Runs.bind (readCluster_quiet (v := v.setData cluster block) hc
    fun k lba hk hk' => h k lba (by omega) (by omega)) ?_
  refine Runs.bind getFs_attempts (Runs.if_neg ?_ (Runs.pure _ _))
  rw [Volume.setData_fs, hlayout.clusterBytes_eq, not_not]
  intro k hk
  simp [Volume.setData, Buf.clip_apply _ hk]

end Quiet

end EntropyOS.Fat32
