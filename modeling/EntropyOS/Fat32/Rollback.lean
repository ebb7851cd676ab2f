import EntropyOS.Fat32.Claiming
import EntropyOS.Fat32.Persisting

/-!
# Creating a directory while one transfer fails

The cluster of the new directory is given back when the directory itself cannot
be written, and lost when its entry in the parent cannot.
-/

namespace EntropyOS.Fat32

open EntropyOS.Foundation

/-- No transfer but the one with the number `k` fails. -/
def OnlyFails (s : System) (k : Nat) : Prop :=
  ∀ n lba, s.device.faults n lba = true → n = k

/-- The same clusters are in use, and the driver counts as many free ones. -/
structure Volume.SameUse (v v' : Volume) : Prop where
  free : ∀ c, v'.link c = free ↔ v.link c = free
  count : v'.freeClusters = v.freeClusters

theorem Volume.SameUse.refl (v : Volume) : v.SameUse v := ⟨fun _ => Iff.rfl, rfl⟩

/-! ## Before and after the fault -/

section Fault

variable {s u : System} {k n m : Nat} {v : Volume} {lbas : List Nat}

theorem OnlyFails.quiet (h : OnlyFails s k) (hk : k < n ∨ m ≤ k) : Quiet s n m := by
  intro j lba hlow hhigh hfails
  have hj := h j _ hfails
  omega

theorem OnlyFails.works (h : OnlyFails s k) (hk : k < n ∨ n + lbas.length ≤ k) :
    Works s n lbas :=
  (h.quiet hk).works le_rfl

theorem OnlyFails.lt_of_not_works (h : OnlyFails s k) (hworks : ¬ Works s n lbas) :
    k < ended s n lbas ∧ n ≤ k ∧ k < n + lbas.length := by
  have hlast : k < ended s n lbas := by
    induction lbas generalizing n with
    | nil => exact absurd trivial hworks
    | cons lba lbas ih =>
        rw [ended]
        by_cases hfails : Fails s n lba
        · rw [if_pos hfails, h n _ hfails]
          exact Nat.lt_succ_self k
        · rw [if_neg hfails]
          exact ih fun hrest => hworks ⟨hfails, hrest⟩
  refine ⟨hlast, ?_⟩
  by_contra hout
  exact hworks (h.works (by omega))

theorem Attempts.ensures {α : Type} {program : Program System α} {a : α} {v' : Volume}
    (h : Attempts s n v program a m v') (hu : During s n v u) :
    Ensures program u fun b w => b = a ∧ During s m v' w :=
  Runs.ensures h hu

theorem During.represents (hu : During s n v u) (h : OnlyFails s k) (hk : k < n) :
    Represents u v := by
  obtain ⟨part, hu, hpart⟩ := hu
  refine ⟨part, ⟨⟨hu.present, ?_⟩, hu.statics, hu.sectors⟩, hpart⟩
  funext j lba
  rw [hu.faults]
  by_contra hfails
  have hj := h _ _ (eq_true_of_ne_false hfails)
  omega

theorem Represents.volume_eq (hu : Represents u v) : volumeOf u = v :=
  (represents_iff.mp hu).2.2

end Fault

/-! ## The scan -/

/-- A fault on the way makes the directory unreadable, or shorter. -/
theorem findSlot_ensures {s u : System} {k n : Nat} {v : Volume} (honly : OnlyFails s k)
    (hlayout : v.fs.Layout) (skip : Nat → Nat → DirEntry → Bool) (name : Name)
    {first last : Nat} {l : List Nat} (hwalk : Walk v.link Live first l last)
    (hrange : ∀ c ∈ l, v.fs.InRange c) (slot : Option Place)
    (hslot : ∀ p ∈ slot, v.fs.InRange p.1) (hu : During s n v u) :
    Ensures (findSlot skip name first (slot.map v.slotAt)) u fun found w =>
      (found = v.search (v.choose skip name (places l) slot) ∧
        During s (n + v.slotReads skip name l (slot.map v.slotAt)) v w) ∨
      (k < n + v.slotReads skip name l (slot.map v.slotAt) ∧ Represents w v ∧
        (found = .unreadable ∨ ∃ choice, found = v.search choice ∧
          ∀ p, choice = .free (some p) → v.fs.InRange p.1)) := by
  induction hwalk generalizing n slot u with
  | stop hstop =>
      rw [findSlot]
      exact Ensures.if_neg hstop (Ensures.pure (.inl ⟨rfl, hu⟩))
  | @step c last l hlive _ ih =>
      have hc := hrange c (by simp)
      have hscan := fun rest => v.choose_placesFrom skip name c 0 128 rest slot
      rw [findSlot, Volume.slotReads, places_cons]
      refine Ensures.if_pos hlive ?_
      refine Ensures.bind (Attempts.ensures (readCluster_attempts hc) hu) ?_
      rintro read w ⟨rfl, hw⟩
      by_cases hworks : Works s n (clusterLbas v.fs c)
      · rw [ended_of_works hworks, clusterLbas_length] at hw
        rw [if_pos hworks]
        refine Ensures.bind (Attempts.ensures getFs_attempts hw) ?_
        rintro _ w ⟨rfl, hw⟩
        rw [hlayout.entriesPerCluster_eq]
        cases hresult : scanIn (skip c) name c (v.data c) 128 0
            (slot.map v.slotAt) with
        | found i =>
            have hchoice := hscan (places l)
            rw [hresult] at hchoice
            rw [hchoice]
            exact Ensures.pure (.inl ⟨rfl, hw⟩)
        | stop found =>
            have hchoice := hscan (places l)
            rw [hresult] at hchoice
            obtain ⟨p, rfl, hchoice⟩ := hchoice
            rw [hchoice]
            exact Ensures.pure (.inl ⟨rfl, hw⟩)
        | more found =>
            rw [hresult] at hscan
            obtain ⟨p, rfl, hchoice⟩ := hscan (places l)
            have hp : ∀ q ∈ p, v.fs.InRange q.1 := by
              obtain ⟨p', heq, hhere⟩ := hscan []
              rintro q rfl
              obtain rfl := Option.map_injective v.slotAt_injective heq
              rcases Volume.choose_free_mem hhere with hq | hq
              · rw [← show places [c] = placesFrom c 0 128 ++ [] from places_cons c [],
                  mem_places, List.mem_singleton] at hq
                rwa [hq.1]
              · exact hslot q hq
            simp only
            rw [hchoice]
            refine Ensures.bind (Attempts.ensures (getNextCluster_attempts hc.2) hw) ?_
            rintro next w ⟨rfl, hw⟩
            by_cases hfat : Fails s (n + 8) (v.fs.fatSector c)
            · have hk := honly _ _ hfat
              rw [if_pos hfat, findSlot]
              refine Ensures.if_neg eoc_not_live (Ensures.pure (.inr ⟨by omega, ?_⟩))
              exact ⟨hw.represents honly (by omega), .inr ⟨.free p, rfl, by
                rintro q heq
                cases heq
                exact hp q rfl⟩⟩
            · rw [if_neg hfat]
              have hrest := ih (fun d hd => hrange d (List.mem_cons_of_mem _ hd)) p hp hw
              rwa [Nat.add_assoc n 8 1, Nat.add_assoc n] at hrest
      · obtain ⟨hk, hlow, hhigh⟩ := honly.lt_of_not_works hworks
        rw [if_neg hworks]
        refine Ensures.bind (Attempts.ensures (text_attempts _) hw) ?_
        rintro _ w ⟨-, hw⟩
        refine Ensures.pure (.inr ⟨?_, hw.represents honly hk, .inl rfl⟩)
        rw [clusterLbas_length] at hhigh
        split <;> omega

/-! ## The allocator -/

def fatWrites (fs : Fs) : Nat := if fs.numFats > 1 then 2 else 1

/-- Used clusters are passed over, also when their links cannot be read. -/
theorem allocateFrom_skips {s u : System} {n skipped count cluster : Nat} {v : Volume}
    {Q : Nat → System → Prop} (hend : cluster + skipped ≤ v.fs.totalClusters + 2)
    (hused : ∀ i < skipped, v.link (cluster + i) ≠ free)
    (hrest : ∀ w, During s (n + skipped) v w →
      Ensures (allocateFrom count (cluster + skipped)) w Q) (hu : During s n v u) :
    Ensures (allocateFrom (skipped + count) cluster) u Q := by
  induction skipped generalizing n cluster u with
  | zero =>
      rw [Nat.zero_add]
      exact hrest u hu
  | succ skipped ih =>
      rw [Nat.succ_add, allocateFrom]
      have hread := getNextCluster_attempts (s := s) (n := n) (v := v)
        (show cluster < v.fs.totalClusters + 2 by omega)
      refine Ensures.bind (Attempts.ensures hread hu) ?_
      rintro next w ⟨rfl, hw⟩
      have hnot : (if Fails s n (v.fs.fatSector cluster) then eoc
          else v.link cluster) ≠ free := by
        split
        · decide
        · exact hused 0 (by omega)
      refine Ensures.if_neg hnot (ih (by omega) (fun i hi => ?_) (fun w hw => ?_) hw)
      · have hnext := hused (i + 1) (by omega)
        rwa [show cluster + (i + 1) = cluster + 1 + i by omega] at hnext
      · have hlast := hrest w (by rwa [show n + (skipped + 1) = n + 1 + skipped by omega])
        rwa [show cluster + (skipped + 1) = cluster + 1 + skipped by omega] at hlast

/-- What comes before the first free cluster, and after it. -/
theorem Volume.freeList_split {v : Volume} {c : Nat} {rest : List Nat}
    (h : v.freeList = c :: rest) :
    (∀ d, 2 ≤ d → d < c → v.link d ≠ Fat32.free) ∧
      (List.range' (c + 1) (v.fs.totalClusters + 1 - c)).filter
        (fun d => v.link d = Fat32.free) = rest := by
  have hmem : c ∈ v.freeList := by simp [h]
  obtain ⟨⟨hlow, hhigh⟩, hfree⟩ := Volume.mem_freeList.mp hmem
  have hsorted := v.freeList_sorted
  rw [h, List.pairwise_cons] at hsorted
  constructor
  · intro d hd hdc hdfree
    have hin : d ∈ v.freeList := Volume.mem_freeList.mpr ⟨⟨hd, by omega⟩, hdfree⟩
    rw [h, List.mem_cons] at hin
    rcases hin with rfl | hin
    · omega
    · have hafter := hsorted.1 d hin
      omega
  · refine (List.pairwise_lt_range').filter _ |>.eq_of_mem_iff hsorted.2 fun d => ?_
    have hin : d ∈ v.freeList ↔ d = c ∨ d ∈ rest := by rw [h, List.mem_cons]
    have hafter := hsorted.1 d
    rw [Volume.mem_freeList, Fs.InRange] at hin
    rw [List.mem_filter, List.mem_range'_1, decide_eq_true_eq]
    constructor
    · rintro ⟨hd, hdfree⟩
      exact (hin.mp ⟨by omega, hdfree⟩).resolve_left (by omega)
    · intro hd
      obtain ⟨hrange, hdfree⟩ := hin.mpr (.inr hd)
      have hcd := hafter hd
      exact ⟨by omega, hdfree⟩

section Allocator

variable {s u : System} {k n c : Nat} {v : Volume} {rest : List Nat}

private theorem allocateFrom_later {x : Volume} (hfree : v.freeList = c :: rest)
    (hfs : x.fs = v.fs) (hlink : ∀ d, d ≠ c → x.link d = v.link d)
    (hu : Represents u x) :
    Ensures (allocateFrom (v.fs.totalClusters + 1 - c) (c + 1)) u fun a w =>
      ∃ y, Represents w y ∧ y.fs = v.fs ∧ ((rest = [] ∧ a = 0 ∧ y = x) ∨ a ∈ rest) := by
  have hmem : c ∈ v.freeList := by simp [hfree]
  obtain ⟨⟨hlow, hhigh⟩, -⟩ := Volume.mem_freeList.mp hmem
  have hsearch := allocateFrom_executes x (v.fs.totalClusters + 1 - c) (c + 1)
    (by rw [hfs]; omega)
  have hsame : (List.range' (c + 1) (v.fs.totalClusters + 1 - c)).filter
      (fun d => x.link d = free) = rest := by
    rw [← (Volume.freeList_split hfree).2]
    apply List.filter_congr
    intro d hd
    rw [List.mem_range'_1] at hd
    rw [hlink d (by omega)]
  rw [hsame] at hsearch
  cases rest with
  | nil =>
      refine (hsearch.ensures hu).mono ?_
      rintro a w ⟨rfl, hw⟩
      exact ⟨x, hw, hfs, .inl ⟨rfl, rfl, rfl⟩⟩
  | cons d rest =>
      refine (hsearch.ensures hu).mono ?_
      rintro a w ⟨rfl, hw⟩
      exact ⟨x.take a, hw, hfs, .inr List.mem_cons_self⟩

/-- Without a free cluster the allocator fails, whatever it cannot read. -/
theorem allocateCluster_ensures_full (hlayout : v.fs.Layout) (hfree : v.freeList = [])
    (hu : During s n v u) :
    Ensures allocateCluster u fun a w => a = 0 ∧ volumeOf w = v := by
  have hend := hlayout.clustersEnd
  refine Ensures.bind (Attempts.ensures getFs_attempts hu) ?_
  rintro _ w ⟨rfl, hw⟩
  rw [u32_of_lt (by omega),
    show v.fs.totalClusters + 2 - 2 = v.fs.totalClusters + 0 from rfl]
  refine allocateFrom_skips (by omega) (fun i hi hused => ?_) (fun w hw => ?_) hw
  · have hmem : 2 + i ∈ v.freeList :=
      Volume.mem_freeList.mpr ⟨⟨by omega, by omega⟩, hused⟩
    simp [hfree] at hmem
  · exact Ensures.pure ⟨rfl, hw.volume_eq⟩

/--
The first free cluster `c` is taken; or a transfer has failed, and the next one
is taken or there is none.
-/
def Allocated (s : System) (k n : Nat) (v : Volume) (c : Nat) (rest : List Nat)
    (a : Nat) (w : System) : Prop :=
  (a = c ∧ ¬ CopyFails s (n + c + 1) v.fs c ∧
    During s (n + c + fatWrites v.fs) (v.take c) w) ∨
  (k < n + c + fatWrites v.fs ∧ ∃ y, Represents w y ∧ y.fs = v.fs ∧
    ((rest = [] ∧ a = 0 ∧
      y = if CopyFails s (n + c + 1) v.fs c then v.setLink c eoc else v) ∨ a ∈ rest))

theorem allocateCluster_ensures (honly : OnlyFails s k) (hlayout : v.fs.Layout)
    (hfree : v.freeList = c :: rest) (hu : During s n v u) :
    Ensures allocateCluster u (Allocated s k n v c rest) := by
  have hend := hlayout.clustersEnd
  have hmem : c ∈ v.freeList := by simp [hfree]
  obtain ⟨⟨hlow, hhigh⟩, hcfree⟩ := Volume.mem_freeList.mp hmem
  obtain ⟨hused, -⟩ := Volume.freeList_split hfree
  have hwrites : 0 < fatWrites v.fs := by
    rw [fatWrites]
    split <;> decide
  refine Ensures.bind (Attempts.ensures getFs_attempts hu) ?_
  rintro _ w ⟨rfl, hw⟩
  rw [u32_of_lt (by omega), show v.fs.totalClusters + 2 - 2 =
    c - 2 + (v.fs.totalClusters + 1 - c + 1) by omega]
  refine allocateFrom_skips (by omega) (fun i hi => hused _ (by omega) (by omega))
    (fun w hw => ?_) hw
  rw [show 2 + (c - 2) = c by omega, allocateFrom]
  -- a fault up to the write of the first FAT changes nothing
  have hunchanged : ∀ {x : System}, Represents x v → k < n + c + 1 →
      Ensures (allocateFrom (v.fs.totalClusters + 1 - c) (c + 1)) x
        (Allocated s k n v c rest) := by
    intro x hx hk
    refine (allocateFrom_later hfree rfl (fun _ _ => rfl) hx).mono ?_
    rintro a w ⟨y, hw, hfs, hy⟩
    refine .inr ⟨by omega, y, hw, hfs, ?_⟩
    rwa [if_neg fun hcopy => absurd (honly _ _ hcopy.2) (by omega)]
  refine Ensures.bind (Attempts.ensures (getNextCluster_attempts hhigh) hw) ?_
  rintro next w ⟨rfl, hw⟩
  by_cases hfat : Fails s (n + (c - 2)) (v.fs.fatSector c)
  · have hk := honly _ _ hfat
    rw [if_pos hfat]
    exact Ensures.if_neg (by decide)
      (hunchanged (hw.represents honly (by omega)) (by omega))
  rw [if_neg hfat]
  refine Ensures.if_pos hcfree ?_
  rw [show n + (c - 2) + 1 = n + c - 1 by omega] at hw
  by_cases hread : Fails s (n + c - 1) (v.fs.fatSector c)
  · have hk := honly _ _ hread
    refine Ensures.bind (Attempts.ensures
      (setNextCluster_attempts_unread eoc hhigh hread) hw) ?_
    rintro status w ⟨rfl, hw⟩
    exact Ensures.if_neg (by decide)
      (hunchanged (hw.represents honly (by omega)) (by omega))
  by_cases hwrite : Fails s (n + c - 1 + 1) (v.fs.fatSector c)
  · have hk := honly _ _ hwrite
    refine Ensures.bind (Attempts.ensures
      (setNextCluster_attempts_unwritten eoc hhigh hread hwrite) hw) ?_
    rintro status w ⟨rfl, hw⟩
    exact Ensures.if_neg (by decide)
      (hunchanged (hw.represents honly (by omega)) (by omega))
  refine Ensures.bind (Attempts.ensures
    (setNextCluster_attempts_linked eoc hhigh hread hwrite) hw) ?_
  rintro status w ⟨rfl, hw⟩
  rw [show n + c - 1 + 2 = n + c + 1 by omega]
  by_cases hcopy : CopyFails s (n + c + 1) v.fs c
  · -- the cluster is linked in the first FAT, and the search goes on
    have hk := honly _ _ hcopy.2
    rw [if_pos hcopy.1] at hw
    rw [if_pos hcopy]
    refine Ensures.if_neg (by decide) ?_
    refine (allocateFrom_later (x := v.setLink c eoc) hfree rfl (fun d hd => ?_)
      (hw.represents honly (by omega))).mono ?_
    · exact Function.update_of_ne hd _ _
    · rintro a w ⟨y, hw, hfs, hy⟩
      refine .inr ⟨?_, y, hw, hfs, ?_⟩
      · rw [fatWrites, if_pos hcopy.1]
        omega
      · rwa [if_pos hcopy]
  · rw [if_neg hcopy]
    refine Ensures.if_pos rfl ?_
    refine Ensures.bind (Attempts.ensures modifyTaken_attempts hw) ?_
    rintro _ w ⟨-, hw⟩
    refine Ensures.pure (.inl ⟨rfl, hcopy, ?_⟩)
    have hnumber : (if v.fs.numFats > 1 then n + c - 1 + 3 else n + c - 1 + 2) =
        n + c + fatWrites v.fs := by
      rw [fatWrites]
      split <;> omega
    rwa [hnumber] at hw

end Allocator

/-! ## The new directory -/

/-- Giving a cluster back makes up for taking it, unless the count was 0. -/
theorem Volume.sameUse_give_iff {v x : Volume} {c : Nat}
    (hcount : v.freeClusters < 4294967296) (hfree : v.link c = Fat32.free)
    (hlink : ∀ d, d ≠ c → x.link d = v.link d)
    (htaken : x.freeClusters = countTaken v.freeClusters) :
    v.SameUse (x.give c) ↔ v.freeClusters ≠ 0 := by
  have hgiven : (x.give c).freeClusters = countGiven (countTaken v.freeClusters) := by
    rw [← htaken]
    rfl
  have hback : countGiven (countTaken v.freeClusters) = v.freeClusters ↔
      v.freeClusters ≠ 0 := by
    have hlast : unknownCount = 4294967295 := rfl
    rw [countTaken, countGiven]
    by_cases hknown : v.freeClusters ≠ unknownCount ∧ v.freeClusters > 0
    · rw [if_pos hknown, if_pos (by omega), u32_of_lt (by omega)]
      omega
    · rw [if_neg hknown]
      split
      · next hne =>
          rw [u32_of_lt (by omega)]
          omega
      · omega
  constructor
  · intro h
    rw [← hback, ← hgiven]
    exact h.count
  · intro hne
    refine ⟨fun d => ?_, hgiven.trans (hback.mpr hne)⟩
    rw [Volume.give_link]
    by_cases hd : d = c
    · simp [hd, hfree]
    · rw [if_neg hd, hlink d hd]

theorem Volume.not_sameUse_of_link {v x : Volume} {c : Nat} (hfree : v.link c = Fat32.free)
    (hlink : x.link c ≠ Fat32.free) : ¬ v.SameUse x :=
  fun h => hlink ((h.free c).mpr hfree)

/-! ## Where a cluster is lost -/

/--
The call takes `c` from transfer `n` on, and the one failure is where it is not
given back: the second FAT when there is no other cluster to take, the new
directory when the count was 0 already, or the parent.
-/
def LosesTaken (s : System) (n : Nat) (v : Volume) (c : Nat) (rest : List Nat)
    (parent : Nat) : Prop :=
  (CopyFails s (n + c + 1) v.fs c ∧ rest = []) ∨
  (¬ Works s (n + c + fatWrites v.fs) (clusterLbas v.fs c) ∧ v.freeClusters = 0) ∨
  ¬ Works s (n + c + fatWrites v.fs + 8) (clusterLbas v.fs parent)

section Store

variable {s u : System} {k n c : Nat} {v : Volume} {rest : List Nat} {name : Name}
  {p : Place}

/-- The transfers that matter come after the allocator has begun. -/
theorem OnlyFails.not_losesTaken (honly : OnlyFails s k) (hk : k < n) (parent : Nat) :
    ¬ LosesTaken s n v c rest parent := by
  rintro (⟨hcopy, -⟩ | ⟨hworks, -⟩ | hworks)
  · have hfault := honly _ _ hcopy.2
    omega
  · exact hworks (honly.works (by omega))
  · exact hworks (honly.works (by omega))

theorem storeDirectory_ensures (honly : OnlyFails s k) (hlayout : v.fs.Layout)
    (hcount : v.freeClusters < 4294967296) (hfree : v.freeList = c :: rest)
    (hp : v.fs.InRange p.1) (parent : Nat) (hu : During s n v u) :
    Ensures (storeDirectory name parent (v.slotAt p)) u fun r w =>
      (r = -1 → v.SameUse (volumeOf w)) ↔ ¬ LosesTaken s n v c rest p.1 := by
  have hmem : c ∈ v.freeList := by simp [hfree]
  obtain ⟨hc, hcfree⟩ := Volume.mem_freeList.mp hmem
  have hlow := hc.1
  refine Ensures.bind (allocateCluster_ensures honly hlayout hfree hu) ?_
  rintro a w (⟨rfl, hcopy, hw⟩ | ⟨hk, y, hw, hfs, ⟨hrest, rfl, rfl⟩ | ha⟩)
  · -- the cluster is taken
    refine Ensures.if_neg (by omega) ?_
    refine Ensures.bind (Attempts.ensures getFs_attempts hw) ?_
    rintro _ w ⟨rfl, hw⟩
    refine Ensures.bind (Attempts.ensures
      (writeCluster_attempts (v := v.take a) _ hc) hw) ?_
    rintro status w ⟨rfl, hw⟩
    rw [Volume.take_fs] at hw ⊢
    generalize hx : (v.take a).setData a _ = x at hw
    have hxfs : x.fs = v.fs := by rw [← hx, Volume.setData_fs, Volume.take_fs]
    have hxlink : ∀ d, x.link d = if d = a then eoc else v.link d := by
      intro d
      rw [← hx, Volume.setData_link, Volume.take_link]
    have hxcount : x.freeClusters = countTaken v.freeClusters := by
      rw [← hx]
      rfl
    by_cases hnew : Works s (n + a + fatWrites v.fs) (clusterLbas v.fs a)
    · rw [ended_of_works hnew, clusterLbas_length] at hw
      rw [if_pos hnew]
      refine Ensures.if_neg (by decide) ?_
      refine Ensures.bind (Attempts.ensures (writeCluster_attempts _
        (by rw [hxfs]; exact hp)) hw) ?_
      rintro status w ⟨rfl, hw⟩
      rw [hxfs] at hw ⊢
      change Ensures (if (if Works s (n + a + fatWrites v.fs + 8)
        (clusterLbas v.fs p.1) then (0 : Int) else -1) ≠ 0 then _ else _) w _
      by_cases hparent : Works s (n + a + fatWrites v.fs + 8) (clusterLbas v.fs p.1)
      · rw [if_pos hparent]
        refine Ensures.if_neg (by decide) ((finishCall_ensures _ _ w).mono ?_)
        rintro r y rfl
        refine iff_of_true (fun h => absurd h (by decide)) ?_
        rintro (⟨hlost, -⟩ | ⟨hlost, -⟩ | hlost)
        · exact hcopy hlost
        · exact hlost hnew
        · exact hlost hparent
      · -- the entry cannot be written, and the cluster stays linked
        rw [if_neg hparent]
        refine Ensures.if_pos (by decide) ?_
        refine Ensures.bind (Attempts.ensures (text_attempts _) hw) ?_
        rintro _ w ⟨-, hw⟩
        refine Ensures.pure (iff_of_false (fun h => ?_) fun h => h (.inr (.inr hparent)))
        have hsame := h rfl
        rw [hw.volume_eq] at hsame
        refine Volume.not_sameUse_of_link hcfree ?_ hsame
        rw [Volume.setData_link, hxlink, if_pos rfl]
        decide
    · -- the directory cannot be written, and the cluster is given back
      obtain ⟨hk, hstart, hend⟩ := honly.lt_of_not_works hnew
      rw [clusterLbas_length] at hend
      rw [if_neg hnew]
      refine Ensures.if_pos (by decide) ?_
      refine Ensures.bind (Attempts.ensures (text_attempts _) hw) ?_
      rintro _ w ⟨-, hw⟩
      refine Ensures.bind (Runs.ensures (freeCluster_executes x
        (by rw [hxfs]; exact hc.2)) (hw.represents honly hk)) ?_
      rintro _ w ⟨-, hw⟩
      refine Ensures.pure ?_
      have hgiven := Volume.sameUse_give_iff hcount hcfree (fun d hd => by
        rw [hxlink, if_neg hd]) hxcount
      rw [hw.volume_eq, hgiven]
      constructor
      · rintro hne (⟨hlost, -⟩ | ⟨-, hzero⟩ | hlost)
        · exact hcopy hlost
        · exact hne rfl hzero
        · exact hlost (honly.works (by omega))
      · exact fun hkept _ hzero => hkept (.inr (.inl ⟨hnew, hzero⟩))
  · -- there is no other one
    refine Ensures.if_pos (by decide) ?_
    refine Ensures.bind (Runs.ensures (text_executes _ _) hw) ?_
    rintro _ w ⟨-, hw⟩
    refine Ensures.pure ?_
    rw [hw.volume_eq]
    have hlater : ∀ m lbas, n + c + fatWrites v.fs ≤ m → Works s m lbas :=
      fun m lbas hm => honly.works (by omega)
    by_cases hcopy : CopyFails s (n + c + 1) v.fs c
    · rw [if_pos hcopy]
      refine iff_of_false (fun h => ?_) fun h => h (.inl ⟨hcopy, hrest⟩)
      refine Volume.not_sameUse_of_link hcfree ?_ (h rfl)
      have hended : (v.setLink c eoc).link c = eoc := Function.update_self _ _ _
      rw [hended]
      decide
    · rw [if_neg hcopy]
      refine iff_of_true (fun _ => .refl v) ?_
      rintro (⟨hlost, -⟩ | ⟨hlost, -⟩ | hlost)
      · exact hcopy hlost
      · exact hlost (hlater _ _ le_rfl)
      · exact hlost (hlater _ _ (Nat.le_add_right _ _))
  · -- another cluster is taken, and nothing fails any more
    have hmem' : a ∈ v.freeList := by simp [hfree, ha]
    obtain ⟨hrange, -⟩ := Volume.mem_freeList.mp hmem'
    have hlow' := hrange.1
    rw [← hfs] at hrange hp
    refine Ensures.if_neg (by omega) ?_
    refine Ensures.bind (Runs.ensures (getFs_executes y) hw) ?_
    rintro _ w ⟨rfl, hw⟩
    refine Ensures.bind (Runs.ensures (writeCluster_executes y _ hrange) hw) ?_
    rintro status w ⟨rfl, hw⟩
    refine Ensures.if_neg (by decide) ?_
    refine Ensures.bind (Runs.ensures (writeCluster_executes (y.setData a _) _ hp) hw) ?_
    rintro status w ⟨rfl, hw⟩
    refine Ensures.if_neg (by decide) ((finishCall_ensures _ _ w).mono ?_)
    rintro r x rfl
    refine iff_of_true (fun h => absurd h (by decide)) ?_
    rintro (⟨-, rfl⟩ | ⟨hlost, -⟩ | hlost)
    · simp at ha
    · exact hlost (honly.works (by omega))
    · exact hlost (honly.works (by omega))

end Store

/-! ## The call -/

/-- If `fat32_create_directory_in` returns -1, no cluster has come into use. -/
def LeaksNothing (s : System) (parent : Nat) (dirname : List UInt8) : Prop :=
  Ensures (createDirectoryIn parent dirname) s fun r s' =>
    r = -1 → (volumeOf s).SameUse (volumeOf s')

/-- There is a place for the directory and a cluster, which is lost. -/
def LosesCluster (s : System) (l : List Nat) (name : Name) : Prop :=
  ∃ p c rest,
    (volumeOf s).choose (skipDots (volumeOf s).fs.rootDirCluster) name (places l) none =
      .free (some p) ∧
    (volumeOf s).freeList = c :: rest ∧
    LosesTaken s ((volumeOf s).slotReads (skipDots (volumeOf s).fs.rootDirCluster) name
      l none) (volumeOf s) c rest p.1

section Call

variable {s : System} {k parent : Nat} {l : List Nat} {dirname : List UInt8}

/-- While one transfer fails, nothing is lost except as `LosesCluster` says. -/
private theorem leaksNothing_iff (hs : s.Present) (hlayout : s.fat32.fs.Layout)
    (hcount : s.fat32.freeClusters < 4294967296)
    (hdir : (volumeOf s).Directory parent l) (honly : OnlyFails s k) :
    LeaksNothing s parent dirname ↔ ¬ LosesCluster s l (nameToFat dirname) := by
  apply Ensures.iff_of_iff
  have hstart := During.start hs hlayout
  rw [LosesCluster]
  generalize hv : volumeOf s = v at *
  have hvLayout := hstart.layout
  have hvCount : v.freeClusters < 4294967296 := by
    rw [← hv]
    exact hcount
  obtain ⟨last, hwalk, -⟩ := hdir.chain.ends
  have hrange := hdir.chain.inRange
  refine Ensures.bind (Attempts.ensures getFs_attempts hstart) ?_
  rintro _ w ⟨rfl, hw⟩
  have hscan := findSlot_ensures honly hvLayout (skipDots v.fs.rootDirCluster)
    (nameToFat dirname) hwalk hrange none (by simp) hw
  refine Ensures.if_pos hvLayout.initialized (Ensures.bind hscan ?_)
  rw [Nat.zero_add, Option.map_none]
  generalize v.slotReads _ _ l none = n
  rintro found w (⟨rfl, hw⟩ | ⟨hk, hw, rfl | ⟨choice, rfl, hp⟩⟩)
  · -- the scan comes before the fault
    cases hchoice : v.choose (skipDots v.fs.rootDirCluster) (nameToFat dirname)
        (places l) none with
    | existing p =>
        refine Ensures.bind (Attempts.ensures (text_attempts _) hw) ?_
        rintro _ w ⟨-, hw⟩
        refine Ensures.pure (iff_of_true (fun _ => hw.volume_eq ▸ .refl v) ?_)
        rintro ⟨q, c, rest, heq, -⟩
        cases heq
    | free slot =>
        cases slot with
        | none =>
            refine Ensures.bind (Attempts.ensures (text_attempts _) hw) ?_
            rintro _ w ⟨-, hw⟩
            refine Ensures.pure (iff_of_true (fun _ => hw.volume_eq ▸ .refl v) ?_)
            rintro ⟨q, c, rest, heq, -⟩
            cases heq
        | some p =>
            have hp : v.fs.InRange p.1 := by
              rcases Volume.choose_free_mem hchoice with hmem | hnone
              · exact hrange p.1 (mem_places.mp hmem).1
              · cases hnone
            cases hfree : v.freeList with
            | nil =>
                refine Ensures.bind (allocateCluster_ensures_full hvLayout hfree hw) ?_
                rintro a w ⟨rfl, hw⟩
                refine Ensures.if_pos (by decide) ?_
                refine Ensures.bind (Ensures.of_some rfl) ?_
                rintro _ x ⟨-, rfl⟩
                refine Ensures.pure (iff_of_true (fun _ => ?_) ?_)
                · exact hw ▸ .refl v
                · rintro ⟨q, c, rest, -, heq, -⟩
                  cases heq
            | cons c rest =>
                refine (storeDirectory_ensures honly hvLayout hvCount hfree hp parent
                  hw).mono fun r x hx => hx.trans (not_congr ?_)
                constructor
                · exact fun hlost => ⟨p, c, rest, rfl, rfl, hlost⟩
                · rintro ⟨q, d, rest', hq, hd, hlost⟩
                  cases hq
                  cases hd
                  exact hlost
  · -- the directory cannot be read
    refine Ensures.pure (iff_of_true (fun _ => hw.volume_eq ▸ .refl v) ?_)
    rintro ⟨p, c, rest, -, -, hlost⟩
    exact honly.not_losesTaken hk _ hlost
  · -- the fault is over when the scan ends
    have hnot : ¬ ∃ p c rest, v.choose (skipDots v.fs.rootDirCluster)
        (nameToFat dirname) (places l) none = .free (some p) ∧ v.freeList = c :: rest ∧
        LosesTaken s n v c rest p.1 := by
      rintro ⟨p, c, rest, -, -, hlost⟩
      exact honly.not_losesTaken hk _ hlost
    cases choice with
    | existing p =>
        refine Ensures.bind (Runs.ensures (text_executes v _) hw) ?_
        rintro _ w ⟨-, hw⟩
        exact Ensures.pure (iff_of_true (fun _ => hw.volume_eq ▸ .refl v) hnot)
    | free slot =>
        cases slot with
        | none =>
            refine Ensures.bind (Runs.ensures (text_executes v _) hw) ?_
            rintro _ w ⟨-, hw⟩
            exact Ensures.pure (iff_of_true (fun _ => hw.volume_eq ▸ .refl v) hnot)
        | some p =>
            cases hfree : v.freeList with
            | nil =>
                refine (Runs.ensures (storeDirectory_full hvLayout hfree parent _)
                  hw).mono ?_
                rintro r x ⟨rfl, hx⟩
                exact iff_of_true (fun _ => hx.volume_eq ▸ .refl v) (hfree ▸ hnot)
            | cons c rest =>
                obtain ⟨x, hrun⟩ :=
                  (storeDirectory_created hvLayout (hp p rfl) hfree parent).1 w hw
                exact ⟨0, x, hrun,
                  iff_of_true (fun h => absurd h (by decide)) (hfree ▸ hnot)⟩

/--
With at most one failed transfer, a call that returns -1 leaves the clusters in
use and their count as they were, unless the failure is in a place of
`LosesCluster`.
-/
theorem createDirectoryIn_leaksNothing_iff (hs : s.Present)
    (hlayout : s.fat32.fs.Layout) (hcount : s.fat32.freeClusters < 4294967296)
    (hdir : (volumeOf s).Directory parent l) (honly : OnlyFails s k) :
    LeaksNothing s parent dirname ↔ ¬ LosesCluster s l (nameToFat dirname) :=
  leaksNothing_iff hs hlayout hcount hdir honly

end Call

/-! ## A new volume -/

private theorem exists_fresh_failing (k : Nat) :
    ∃ s, s.Present ∧ s.fat32.fs.Layout ∧ (volumeOf s).Fresh 1 8 ∧ OnlyFails s k ∧
      ∀ n lba, Fails s n lba ↔ n = k := by
  obtain ⟨t, ht, hlayout, hfresh⟩ := exists_fresh_hundred
  refine ⟨{ t with device := { t.device with faults := fun n _ => decide (n = k) } },
    ht.present, hlayout, hfresh, ?_, ?_⟩
  · intro n lba hfails
    simpa using hfails
  · intro n lba
    simp [Fails]

private theorem fresh_scan {v : Volume} (hfresh : v.Fresh 1 8) (name : Name) :
    v.choose (skipDots v.fs.rootDirCluster) name (places [2]) none =
        .free (some (2, 0)) ∧
      v.slotReads (skipDots v.fs.rootDirCluster) name [2] none = 8 := by
  have hroot : v.fs.rootDirCluster = 2 := by
    rw [hfresh.fs]
    rfl
  have hend : (entryAt (v.data 2) 0).IsEnd :=
    hfresh.entry_isEnd (q := (2, 0)) (by simp [mem_places])
  have hstop : scanIn (skipDots v.fs.rootDirCluster 2) name 2 (v.data 2) 128 0 none =
      .stop (some (v.slotAt (2, 0))) := by
    have hskip : skipDots v.fs.rootDirCluster 2 0 (entryAt (v.data 2) 0) = false := by
      simp [skipDots, hroot]
    rw [scanIn]
    simp only [hskip, Bool.false_eq_true, if_false, hend, true_or, if_true]
    rfl
  have hscan := v.choose_placesFrom (skipDots v.fs.rootDirCluster) name 2 0 128 [] none
  rw [Option.map_none, hstop] at hscan
  obtain ⟨p, hp, hchoice⟩ := hscan
  obtain rfl := Option.map_injective v.slotAt_injective (hp.symm.trans
    (Option.map_some (f := v.slotAt) (a := (2, 0))).symm)
  exact ⟨hchoice, by rw [Volume.slotReads, hstop]⟩

/-- What fails is the first write to the cluster of the new directory. -/
theorem leaksNothing_when_directory_unwritten :
    ∃ s, (∀ n lba, Fails s n lba ↔ n = 13) ∧ LeaksNothing s 2 roundDirectory := by
  obtain ⟨s, hs, hlayout, hfresh, honly, hfails⟩ := exists_fresh_failing 13
  have hcount : (volumeOf s).freeClusters = 7 := hfresh.count
  have hleaked := hfresh.leaked hlayout (by decide)
  refine ⟨s, hfails, (createDirectoryIn_leaksNothing_iff hs hlayout
    (by change (volumeOf s).freeClusters < _; omega) hleaked.directory honly).mpr ?_⟩
  rintro ⟨p, c, rest, -, hfree, hlost⟩
  obtain ⟨rfl, -⟩ := List.cons.inj (hleaked.free.symm.trans hfree)
  have hwrites : fatWrites (volumeOf s).fs = 2 := by
    rw [hfresh.fs]
    rfl
  rw [(fresh_scan hfresh _).2, LosesTaken, hwrites] at hlost
  rcases hlost with ⟨hcopy, -⟩ | ⟨-, hzero⟩ | hparent
  · have htwelve := (hfails _ _).mp hcopy.2
    omega
  · omega
  · exact hparent (honly.works (by omega))

/-- What fails is the first write to the root directory, after that. -/
theorem cluster_lost_when_parent_unwritten :
    ¬ ∀ (s : System) (k parent : Nat) (l : List Nat) (dirname : List UInt8),
      s.Present → s.fat32.fs.Layout → (volumeOf s).WellFormed →
      s.fat32.freeClusters < 4294967296 → (volumeOf s).Directory parent l →
      OnlyFails s k → LeaksNothing s parent dirname := by
  intro hclaim
  obtain ⟨s, hs, hlayout, hfresh, honly, hfails⟩ := exists_fresh_failing 21
  have hcount : (volumeOf s).freeClusters = 7 := hfresh.count
  have hsmall : s.fat32.freeClusters < 4294967296 := by
    change (volumeOf s).freeClusters < _
    omega
  have hleaked := hfresh.leaked hlayout (by decide)
  have hnothing := hclaim s 21 2 [2] roundDirectory hs hlayout
    hleaked.regular.wellFormed hsmall hleaked.directory honly
  refine (leaksNothing_iff hs hlayout hsmall hleaked.directory honly).mp hnothing ?_
  obtain ⟨hchoice, hreads⟩ := fresh_scan hfresh (nameToFat roundDirectory)
  refine ⟨(2, 0), 3, _, hchoice, hleaked.free, ?_⟩
  have hwrites : fatWrites (volumeOf s).fs = 2 := by
    rw [hfresh.fs]
    rfl
  rw [hreads, LosesTaken, hwrites]
  exact .inr (.inr fun hworks => hworks.1 ((hfails _ _).mpr rfl))

end EntropyOS.Fat32
