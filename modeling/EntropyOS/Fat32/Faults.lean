import EntropyOS.Fat32.Partition

/-!
# Reading from a device that may fail

A read that works moves on in the pattern of faults and changes nothing else.
The loops that follow a chain read the clusters of `Visits`; a failed read of
the FAT ends a chain like an end mark.
-/

namespace EntropyOS

open EntropyOS.Foundation

/-- The state `n` transfers later, when none of them changed anything. -/
def System.skip (s : System) (n : Nat) : System :=
  { s with device :=
    { s.device with faults := fun k => s.device.faults (k + n) } }

def System.Present (s : System) : Prop :=
  (s.device.sataPresent || s.device.msPresent) = true

/-- The state after a read of one sector that failed. -/
def System.missed (s : System) : System :=
  { s.tick with
    console :=
      if s.device.sataPresent then s.console
      else "block: ms_read_blocks failed\n" :: s.console }

section Skip

variable (s : System) (n m : Nat)

@[simp] theorem System.skip_zero : s.skip 0 = s := rfl

@[simp] theorem System.skip_fat32 : (s.skip n).fat32 = s.fat32 := rfl

@[simp] theorem System.skip_skip : (s.skip n).skip m = s.skip (n + m) := by
  simp only [System.skip, Nat.add_assoc, Nat.add_comm m n]

theorem System.skip_present : (s.skip n).Present ↔ s.Present := Iff.rfl

end Skip

theorem blockReadSector_cases (s : System) (lba : Nat) :
    blockReadSector lba s =
      if s.device.sataPresent || s.device.msPresent then
        if s.device.faults 0 lba then some (none, s.missed)
        else some (some (s.device.sectors lba), s.skip 1)
      else some (none, s) := by
  by_cases hs : (s.device.sataPresent || s.device.msPresent) = true
  · rw [if_pos hs]
    cases hfault : s.device.faults 0 lba with
    | false => exact blockReadSector_present lba hs hfault
    | true =>
        unfold blockReadSector
        rw [Program.get_bind,
          if_pos hs, Program.bind_of_some (transferFails_apply lba), hfault]
        have hsame : s.tick.device.sataPresent = s.device.sataPresent := rfl
        rw [System.missed]
        cases s.device.sataPresent with
        | false => rfl
        | true => rfl
  · unfold blockReadSector
    rw [Program.get_bind, if_neg hs, if_neg hs]
    rfl

namespace Fat32

/-- Whether transfer `n` from now on fails at this sector of the partition. -/
def Fails (s : System) (n lba : Nat) : Prop :=
  s.device.faults n (u64 (s.fat32.partitionOffset + lba)) = true

instance (s : System) (n lba : Nat) : Decidable (Fails s n lba) :=
  inferInstanceAs (Decidable (_ = true))

@[simp] theorem fails_skip (s : System) (n m lba : Nat) :
    Fails (s.skip n) m lba ↔ Fails s (n + m) lba := by
  simp only [Fails, System.skip, Nat.add_comm m n]

@[simp] theorem volumeSector_skip (s : System) (n lba : Nat) :
    volumeSector (s.skip n) lba = volumeSector s lba := rfl

theorem readSector_present {s : System} (hs : s.Present) (lba : Nat) :
    readSector lba s =
      if Fails s 0 lba then some (none, s.missed)
      else some (some (volumeSector s lba), s.skip 1) :=
  (blockReadSector_cases s _).trans (if_pos hs)

theorem readSector_some {s s' : System} {lba : Nat} {sector : Sector}
    (h : readSector lba s = some (some sector, s')) :
    s.Present ∧ ¬ Fails s 0 lba ∧ sector = volumeSector s lba ∧ s' = s.skip 1 := by
  by_cases hs : s.Present
  · rw [readSector_present hs] at h
    split at h
    · simp at h
    · next hfails =>
        simp only [Option.some.injEq, Prod.mk.injEq] at h
        exact ⟨hs, hfails, h.1.symm, h.2.symm⟩
  · have hnone : readSector lba s = some (none, s) :=
      (blockReadSector_cases s _).trans (if_neg hs)
    simp [hnone] at h

/-! ## Clusters and links -/

def clusterData (s : System) (cluster : Nat) : Buf := fun k =>
  if k < s.fat32.fs.clusterBytes then
    (volumeSector s (s.fat32.fs.clusterToLba cluster + k / 512)).toBuf (k % 512)
  else 0

def linkOf (s : System) (cluster : Nat) : Nat :=
  readLe (volumeSector s (s.fat32.fs.fatSector cluster)).toBuf
    (entryOffset cluster) 4 % 268435456

@[simp] theorem clusterData_skip (s : System) (n : Nat) :
    clusterData (s.skip n) = clusterData s := rfl

@[simp] theorem linkOf_skip (s : System) (n : Nat) :
    linkOf (s.skip n) = linkOf s := rfl

theorem readSectors_some {s s' : System} {lba count i : Nat} {buf buf' : Buf}
    (h : readSectors lba count i buf s = some (some buf', s')) :
    s' = s.skip count ∧ (0 < count → s.Present) ∧
      buf' = fun k => if 512 * i ≤ k ∧ k < 512 * (i + count) then
        (volumeSector s (lba + k / 512)).toBuf (k % 512) else buf k := by
  induction count generalizing s i buf with
  | zero =>
      simp only [readSectors, Program.pure_apply, Option.some.injEq,
        Prod.mk.injEq] at h
      refine ⟨h.2.symm, fun h => absurd h (by decide), ?_⟩
      rw [← h.1, putSector_none fun k => volumeSector s (lba + k)]
  | succ count ih =>
      rw [readSectors] at h
      obtain ⟨read, middle, hread, hrest⟩ := Program.exists_of_bind h
      cases read with
      | none => simp at hrest
      | some sector =>
          obtain ⟨hs, -, rfl, rfl⟩ := readSector_some hread
          obtain ⟨rfl, -, hbuf⟩ := ih hrest
          refine ⟨by rw [System.skip_skip, Nat.add_comm], fun _ => hs, ?_⟩
          rw [hbuf]
          simp only [volumeSector_skip]
          exact putSector_overlay (fun k => volumeSector s (lba + k)) buf i count

theorem readCluster_some {s s' : System} {cluster : Nat} {buf : Buf}
    (hsize : 0 < s.fat32.fs.sectorsPerCluster)
    (h : readCluster cluster s = some (some buf, s')) :
    s.Present ∧ buf = clusterData s cluster ∧
      s' = s.skip s.fat32.fs.sectorsPerCluster := by
  obtain ⟨hskip, hs, hbuf⟩ := readSectors_some h
  refine ⟨hs hsize, ?_, hskip⟩
  rw [hbuf]
  funext k
  refine if_congr ?_ rfl rfl
  rw [Fs.clusterBytes]
  omega

theorem readCluster_skip {s s' : System} {n cluster : Nat} {buf : Buf}
    (hsize : 0 < s.fat32.fs.sectorsPerCluster)
    (h : readCluster cluster (s.skip n) = some (some buf, s')) :
    s.Present ∧ buf = clusterData s cluster ∧
      s' = s.skip (n + s.fat32.fs.sectorsPerCluster) := by
  obtain ⟨hs, hbuf, hskip⟩ := readCluster_some (s := s.skip n) hsize h
  exact ⟨hs, hbuf, hskip.trans (System.skip_skip _ _ _)⟩

theorem getNextCluster_present {s : System} (hs : s.Present) (cluster : Nat) :
    getNextCluster cluster s =
      if Fails s 0 (s.fat32.fs.fatSector cluster) then some (eoc, s.missed)
      else some (linkOf s cluster, s.skip 1) := by
  unfold getNextCluster
  rw [Program.bind_of_some (getFs_apply s),
    Program.bind_apply, readSector_present hs]
  split
  · rfl
  · rfl

/-! ## The clusters a loop reads -/

/-- What `fat32_get_next_cluster` returns as transfer `n`. -/
def nextAt (s : System) (n cluster : Nat) : Nat :=
  if Fails s n (s.fat32.fs.fatSector cluster) then eoc else linkOf s cluster

theorem getNextCluster_nextAt {s u : System} {n cluster next : Nat} (hs : s.Present)
    (h : getNextCluster cluster (s.skip n) = some (next, u)) :
    next = nextAt s n cluster ∧
      (Live next → next = linkOf s cluster ∧ u = s.skip (n + 1)) := by
  rw [getNextCluster_present ((System.skip_present _ _).mpr hs)] at h
  by_cases hfails : Fails s n (s.fat32.fs.fatSector cluster)
  · rw [if_pos (by simpa using hfails)] at h
    obtain ⟨rfl, rfl⟩ := Prod.mk.inj (Option.some.inj h)
    exact ⟨(if_pos hfails).symm, fun hlive => absurd hlive.2 (lt_irrefl _)⟩
  · rw [if_neg (by simpa using hfails)] at h
    obtain ⟨rfl, rfl⟩ := Prod.mk.inj (Option.some.inj h)
    exact ⟨(if_neg hfails).symm, fun _ => ⟨rfl, System.skip_skip _ _ _⟩⟩

/--
A loop over `remaining` bytes that starts at `cluster` with transfer `n` reads
this many clusters.
-/
inductive Visits (s : System) : Nat → Nat → Nat → Nat → Prop
  | stop {n cluster remaining : Nat} :
      ¬ (Live cluster ∧ remaining > 0) → Visits s n cluster remaining 0
  | step {n cluster remaining count : Nat} :
      Live cluster → 0 < remaining →
      Visits s (n + (s.fat32.fs.sectorsPerCluster + 1))
        (nextAt s (n + s.fat32.fs.sectorsPerCluster) cluster)
        (remaining - min remaining s.fat32.fs.clusterBytes) count →
      Visits s n cluster remaining (count + 1)

/--
The chain that the driver finds holds `remaining` bytes: each cluster of them is
live, and no read of the FAT between two of them fails.
-/
def Covers (s : System) (n cluster remaining : Nat) : Prop :=
  ∀ j, j * s.fat32.fs.clusterBytes < remaining →
    Live ((linkOf s)^[j] cluster) ∧
      ((j + 1) * s.fat32.fs.clusterBytes < remaining →
        ¬ Fails s (n + j * (s.fat32.fs.sectorsPerCluster + 1) +
          s.fat32.fs.sectorsPerCluster)
          (s.fat32.fs.fatSector ((linkOf s)^[j] cluster)))

section Visits

variable {s : System} {n cluster remaining count : Nat}

theorem eoc_not_live : ¬ Live eoc := fun h => absurd h.2 (lt_irrefl _)

theorem Visits.eq_zero (h : Visits s n cluster remaining count)
    (hstop : ¬ Live cluster) : count = 0 := by
  cases h with
  | stop => rfl
  | step hlive => exact absurd hlive hstop

/-- Behind its first cluster, a loop is on the chain of that cluster. -/
theorem Visits.iterate_next {next j : Nat} (h : Visits s n next remaining count)
    (hnext : Live next → next = linkOf s cluster) (hj : j < count) :
    (linkOf s)^[j] next = (linkOf s)^[j + 1] cluster := by
  have hlive : Live next := by
    by_contra hstop
    have hnone := h.eq_zero hstop
    omega
  rw [Function.iterate_succ_apply, ← hnext hlive]

/-- Each cluster that is read is the next of the chain on disk. -/
theorem Visits.live (h : Visits s n cluster remaining count) {j : Nat}
    (hj : j < count) : Live ((linkOf s)^[j] cluster) := by
  induction h generalizing j with
  | stop => omega
  | @step n cluster remaining count hlive _ htail ih =>
      cases j with
      | zero => exact hlive
      | succ j =>
          by_cases hfails : Fails s (n + s.fat32.fs.sectorsPerCluster)
              (s.fat32.fs.fatSector cluster)
          · rw [nextAt, if_pos hfails] at htail
            have hnone := htail.eq_zero eoc_not_live
            omega
          · rw [nextAt, if_neg hfails] at ih
            rw [Function.iterate_succ_apply]
            exact ih (Nat.lt_of_succ_lt_succ hj)

theorem covers_step (hmore : s.fat32.fs.clusterBytes < remaining)
    (hlive : Live cluster)
    (hread : ¬ Fails s (n + s.fat32.fs.sectorsPerCluster)
      (s.fat32.fs.fatSector cluster)) :
    Covers s n cluster remaining ↔
      Covers s (n + (s.fat32.fs.sectorsPerCluster + 1)) (linkOf s cluster)
        (remaining - s.fat32.fs.clusterBytes) := by
  constructor
  · intro h j hj
    obtain ⟨hnext, hfat⟩ := h (j + 1) (by rw [Nat.succ_mul]; omega)
    rw [Function.iterate_succ_apply] at hnext hfat
    refine ⟨hnext, fun hj' => ?_⟩
    have hagain := hfat (by rw [Nat.succ_mul]; omega)
    rwa [show n + (j + 1) * (s.fat32.fs.sectorsPerCluster + 1) +
        s.fat32.fs.sectorsPerCluster =
      n + (s.fat32.fs.sectorsPerCluster + 1) +
        j * (s.fat32.fs.sectorsPerCluster + 1) +
        s.fat32.fs.sectorsPerCluster by rw [Nat.succ_mul]; omega] at hagain
  · intro h j hj
    cases j with
    | zero =>
        refine ⟨hlive, fun _ => ?_⟩
        simpa using hread
    | succ j =>
        rw [Nat.succ_mul] at hj
        obtain ⟨hnext, hfat⟩ := h j (by omega)
        rw [Function.iterate_succ_apply]
        refine ⟨hnext, fun hj' => ?_⟩
        rw [Nat.succ_mul] at hj'
        have hagain := hfat (by omega)
        rwa [show n + (j + 1) * (s.fat32.fs.sectorsPerCluster + 1) +
            s.fat32.fs.sectorsPerCluster =
          n + (s.fat32.fs.sectorsPerCluster + 1) +
            j * (s.fat32.fs.sectorsPerCluster + 1) +
            s.fat32.fs.sectorsPerCluster by rw [Nat.succ_mul]; omega]

/-- The clusters that are read hold all the bytes if the chain covers them. -/
theorem Visits.covers_iff (h : Visits s n cluster remaining count) :
    remaining ≤ count * s.fat32.fs.clusterBytes ↔
      Covers s n cluster remaining := by
  induction h with
  | @stop n cluster remaining hstop =>
      rw [Nat.zero_mul, Nat.le_zero]
      constructor
      · rintro rfl j hj
        omega
      · intro hcovers
        by_contra hne
        have hpos := Nat.pos_of_ne_zero hne
        exact hstop ⟨(hcovers 0 (by omega)).1, hpos⟩
  | @step n cluster remaining count hlive hpos htail ih =>
      rw [Nat.succ_mul]
      by_cases hmore : s.fat32.fs.clusterBytes < remaining
      · rw [min_eq_right hmore.le] at htail ih
        by_cases hfails : Fails s (n + s.fat32.fs.sectorsPerCluster)
            (s.fat32.fs.fatSector cluster)
        · rw [nextAt, if_pos hfails] at htail
          obtain rfl := htail.eq_zero eoc_not_live
          constructor
          · omega
          · intro hcovers
            have hread := (hcovers 0 (by omega)).2 (by omega)
            rw [Nat.zero_mul, Nat.add_zero] at hread
            exact absurd hfails hread
        · rw [nextAt, if_neg hfails] at ih
          rw [covers_step hmore hlive hfails, ← ih]
          omega
      · constructor
        · intro _ j hj
          have hj' : j = 0 := by
            by_contra hne
            have := Nat.mul_le_mul_right s.fat32.fs.clusterBytes
              (Nat.pos_of_ne_zero hne)
            omega
          subst hj'
          exact ⟨hlive, fun h => by omega⟩
        · omega

end Visits

end Fat32

end EntropyOS
