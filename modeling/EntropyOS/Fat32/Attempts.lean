import EntropyOS.Fat32.Faults
import EntropyOS.Fat32.Directory

/-!
# Calls on a device that may fail

The faults of a device are numbered by transfers, so the outcome of a call is a
function of the volume and of the number of the transfer it starts with.  The
theorems of this file say which transfers each function tries, with what result,
and what becomes of the volume.
-/

namespace EntropyOS.Fat32

open EntropyOS.Foundation

/-- `u` comes `n` transfers after `s`, and shows the partition. -/
structure Reached (s : System) (n : Nat) (part : Partition) (u : System) : Prop where
  present : u.Present
  faults : ∀ m lba, u.device.faults m lba = s.device.faults (n + m) lba
  statics : u.fat32 = part.statics
  offset : part.statics.partitionOffset = s.fat32.partitionOffset
  sectors : ∀ lba < 4294967296, volumeSector u lba = part.sectors lba

/-- Between the transfers `n` and `n'` the program acts on the partition so. -/
abbrev Tries {α : Type} (s : System) (n : Nat) (part : Partition)
    (program : Program System α) (a : α) (n' : Nat) (part' : Partition) : Prop :=
  Runs (fun u (t : Nat × Partition) => Reached s t.1 t.2 u) (n, part) program a
    (n', part')

theorem Reached.fails {s u : System} {n : Nat} {part : Partition}
    (h : Reached s n part u) (m lba : Nat) : Fails u m lba ↔ Fails s (n + m) lba := by
  rw [Fails, Fails, h.faults, h.statics, h.offset]

/-! ## Transfers in a row -/

/-- The transfers from `n` on, at these sectors, all work. -/
def Works (s : System) : Nat → List Nat → Prop
  | _, [] => True
  | n, lba :: rest => ¬ Fails s n lba ∧ Works s (n + 1) rest

instance decidableWorks (s : System) : (n : Nat) → (lbas : List Nat) →
    Decidable (Works s n lbas)
  | _, [] => isTrue trivial
  | n, lba :: rest =>
      have := decidableWorks s (n + 1) rest
      inferInstanceAs (Decidable (¬ Fails s n lba ∧ Works s (n + 1) rest))

/-- The next transfer, when they are tried until one fails. -/
def ended (s : System) : Nat → List Nat → Nat
  | n, [] => n
  | n, lba :: rest => if Fails s n lba then n + 1 else ended s (n + 1) rest

def worked (s : System) : Nat → List Nat → Nat
  | _, [] => 0
  | n, lba :: rest => if Fails s n lba then 0 else worked s (n + 1) rest + 1

section Rows

variable {s : System}

theorem works_cons {n lba : Nat} {lbas : List Nat} (hworks : ¬ Fails s n lba) :
    Works s n (lba :: lbas) ↔ Works s (n + 1) lbas :=
  and_iff_right hworks

theorem works_append {n : Nat} {lbas more : List Nat} :
    Works s n (lbas ++ more) ↔ Works s n lbas ∧ Works s (n + lbas.length) more := by
  induction lbas generalizing n with
  | nil => simp [Works]
  | cons lba lbas ih =>
      simp only [List.cons_append, Works, ih, List.length_cons, and_assoc,
        Nat.add_right_comm n 1, Nat.add_assoc]

theorem works_of_not_fails {n : Nat} {lbas : List Nat}
    (h : ∀ k lba, n ≤ k → k < n + lbas.length → ¬ Fails s k lba) :
    Works s n lbas := by
  induction lbas generalizing n with
  | nil => trivial
  | cons lba lbas ih =>
      rw [List.length_cons] at h
      exact ⟨h n lba le_rfl (by omega), ih fun k lba hlow hhigh =>
        h k lba (by omega) (by omega)⟩

theorem ended_of_works {n : Nat} {lbas : List Nat} (h : Works s n lbas) :
    ended s n lbas = n + lbas.length := by
  induction lbas generalizing n with
  | nil => rfl
  | cons lba lbas ih =>
      rw [ended, if_neg h.1, ih h.2, List.length_cons]
      omega

theorem ended_append {n : Nat} {lbas more : List Nat} :
    ended s n (lbas ++ more) =
      if Works s n lbas then ended s (n + lbas.length) more else ended s n lbas := by
  induction lbas generalizing n with
  | nil => simp [Works]
  | cons lba lbas ih =>
      rw [List.cons_append, ended, ended]
      by_cases hfails : Fails s n lba
      · rw [if_pos hfails, if_pos hfails, if_neg fun h => h.1 hfails]
      · rw [if_neg hfails, if_neg hfails, ih]
        refine if_congr ?_ ?_ rfl
        · exact ⟨fun h => ⟨hfails, h⟩, fun h => h.2⟩
        · rw [List.length_cons]
          congr 1
          omega

theorem worked_of_works {n : Nat} {lbas : List Nat} (h : Works s n lbas) :
    worked s n lbas = lbas.length := by
  induction lbas generalizing n with
  | nil => rfl
  | cons lba lbas ih => rw [worked, if_neg h.1, ih h.2, List.length_cons]

theorem worked_le (n : Nat) (lbas : List Nat) : worked s n lbas ≤ lbas.length := by
  induction lbas generalizing n with
  | nil => exact le_rfl
  | cons lba lbas ih =>
      rw [worked, List.length_cons]
      split
      · omega
      · exact Nat.succ_le_succ (ih _)

theorem lt_worked_iff {n k : Nat} {lbas : List Nat} (hk : k < lbas.length) :
    k < worked s n lbas ↔ Works s n (lbas.take (k + 1)) := by
  induction lbas generalizing n k with
  | nil => simp at hk
  | cons lba lbas ih =>
      rw [worked, List.take_succ_cons, Works]
      by_cases hfails : Fails s n lba
      · simp [hfails]
      · cases k with
        | zero => simp [hfails, Works]
        | succ k =>
            rw [if_neg hfails, Nat.succ_lt_succ_iff, ih (by simpa using hk)]
            simp [hfails]

end Rows

/-! ## Sectors -/

section Sectors

variable {s : System} {n : Nat} {part : Partition}

theorem readSector_tries {lba : Nat} (hlba : lba < 4294967296) :
    Tries s n part (readSector lba)
      (if Fails s n lba then none else some (part.sectors lba)) (n + 1) part := by
  intro u hu
  have hread := readSector_present hu.present lba
  have hfails := hu.fails 0 lba
  rw [Nat.add_zero] at hfails
  by_cases hfail : Fails s n lba
  · rw [if_pos (hfails.mpr hfail)] at hread
    rw [if_pos hfail]
    refine ⟨_, hread, hu.present, fun m k => ?_, hu.statics, hu.offset, hu.sectors⟩
    exact (hu.faults (m + 1) k).trans (by congr 1; omega)
  · rw [if_neg fun h => hfail (hfails.mp h), hu.sectors lba hlba] at hread
    rw [if_neg hfail]
    refine ⟨_, hread, hu.present, fun m k => ?_, hu.statics, hu.offset, hu.sectors⟩
    exact (hu.faults (m + 1) k).trans (by congr 1; omega)

theorem writeSector_tries {lba : Nat} (sector : Sector) (hlba : lba < 4294967296) :
    Tries s n part (writeSector lba sector) (if Fails s n lba then -1 else 0)
      (n + 1) (if Fails s n lba then part else part.put lba sector) := by
  intro u hu
  have hwrite := blockWriteSector_present
    (u64 (u.fat32.partitionOffset + lba)) hu.present sector
  have hfails := hu.fails 0 lba
  rw [Nat.add_zero] at hfails
  change writeSector lba sector u =
    if Fails u 0 lba then some (-1, u.tick.record _)
    else some (0, u.tick.put _ sector) at hwrite
  by_cases hfail : Fails s n lba
  · rw [if_pos (hfails.mpr hfail)] at hwrite
    rw [if_pos hfail, if_pos hfail]
    refine ⟨_, hwrite, hu.present, fun m k => ?_, hu.statics, hu.offset, hu.sectors⟩
    exact (hu.faults (m + 1) k).trans (by congr 1; omega)
  · rw [if_neg fun h => hfail (hfails.mp h)] at hwrite
    rw [if_neg hfail, if_neg hfail]
    refine ⟨_, hwrite, hu.present, fun m k => ?_, hu.statics, hu.offset, ?_⟩
    · exact (hu.faults (m + 1) k).trans (by congr 1; omega)
    · intro other hother
      have hput := volumeSector_put u.tick sector hlba hother
      refine hput.trans ?_
      simp only [Partition.put, Function.update_apply]
      split
      · rfl
      · exact hu.sectors other hother

theorem getFs_tries : Tries s n part getFs part.statics.fs n part := by
  apply Runs.of_reads
  intro u hu
  rw [← hu.statics]
  rfl

theorem text_tries (message : String) : Tries s n part (text message) () n part :=
  fun _ hu => ⟨_, rfl, hu.present, hu.faults, hu.statics, hu.offset, hu.sectors⟩

theorem readSectors_tries (lba count i : Nat) (buf : Buf)
    (h : lba + i + count ≤ 4294967296) :
    Tries s n part (readSectors lba count i buf)
      (if Works s n ((List.range' i count).map (lba + ·)) then some fun k =>
        if 512 * i ≤ k ∧ k < 512 * (i + count) then
          (part.sectors (lba + k / 512)).toBuf (k % 512)
        else buf k
      else none) (ended s n ((List.range' i count).map (lba + ·))) part := by
  induction count generalizing n i buf with
  | zero =>
      rw [putSector_none fun k => part.sectors (lba + k)]
      exact Runs.pure _ _
  | succ count ih =>
      rw [List.range'_succ, List.map_cons, ended]
      refine Runs.bind (readSector_tries (by omega)) ?_
      by_cases hfail : Fails s n (lba + i)
      · rw [if_pos hfail, if_pos hfail, if_neg fun h => h.1 hfail]
        exact Runs.pure _ _
      · rw [if_neg hfail, if_neg hfail]
        have hrest := ih (n := n + 1) (i + 1)
          (putSector buf i (part.sectors (lba + i))) (by omega)
        rw [putSector_overlay (fun k => part.sectors (lba + k)) buf i count] at hrest
        simp only [works_cons hfail]
        exact hrest

theorem writeSectors_tries (lba : Nat) (buf : Buf) (count i : Nat)
    (h : lba + i + count ≤ 4294967296) :
    Tries s n part (writeSectors lba buf count i)
      (if Works s n ((List.range' i count).map (lba + ·)) then 0 else -1)
      (ended s n ((List.range' i count).map (lba + ·)))
      (part.putAll (lba + i) (worked s n ((List.range' i count).map (lba + ·)))
        fun j => Sector.ofBuf fun k => buf (512 * (i + j) + k)) := by
  induction count generalizing n part i with
  | zero =>
      simp only [List.range'_zero, List.map_nil, worked, Partition.putAll_zero]
      exact Runs.pure _ _
  | succ count ih =>
      rw [List.range'_succ, List.map_cons, ended, worked]
      refine Runs.bind (writeSector_tries _ (by omega)) ?_
      by_cases hfail : Fails s n (lba + i)
      · have hnot : ¬ Works s n
            ((lba + i) :: (List.range' (i + 1) count).map (lba + ·)) :=
          fun h => h.1 hfail
        simp only [hfail, if_true, hnot, if_false, Partition.putAll_zero]
        exact Runs.if_pos (by decide) (Runs.pure _ _)
      · rw [if_neg hfail, if_neg hfail, if_neg hfail, if_neg hfail,
          Partition.putAll_succ]
        have hrest : Tries s (n + 1)
            (part.put (lba + i) (Sector.ofBuf fun k => buf (512 * i + k)))
            (writeSectors lba buf count (i + 1)) _ _ _ := ih (i + 1) (by omega)
        simp only [show ∀ j, i + 1 + j = i + (j + 1) by omega] at hrest
        simp only [works_cons hfail]
        exact Runs.if_neg (by decide) hrest

end Sectors

/-! ## Clusters and links -/

/-- `u` comes `n` transfers after `s`, and shows the volume. -/
def During (s : System) (n : Nat) (v : Volume) (u : System) : Prop :=
  ∃ part, Reached s n part u ∧ part.Holds v

/-- Between the transfers `n` and `n'` the program acts on the volume so. -/
abbrev Attempts {α : Type} (s : System) (n : Nat) (v : Volume)
    (program : Program System α) (a : α) (n' : Nat) (v' : Volume) : Prop :=
  Runs (fun u (t : Nat × Volume) => During s t.1 t.2 u) (n, v) program a (n', v')

theorem During.start {s : System} (hs : s.Present) (hlayout : s.fat32.fs.Layout) :
    During s 0 (volumeOf s) s :=
  ⟨partitionOf s, ⟨hs, fun m lba => by rw [Nat.zero_add], rfl, rfl, fun _ _ => rfl⟩,
    Partition.holds_iff.mpr ⟨hlayout, rfl⟩⟩

theorem During.fs {s u : System} {n : Nat} {v : Volume} (h : During s n v u) :
    u.fat32.fs = v.fs := by
  obtain ⟨part, hu, hpart⟩ := h
  rw [hu.statics, hpart.fs]

theorem During.layout {s u : System} {n : Nat} {v : Volume} (h : During s n v u) :
    v.fs.Layout := by
  obtain ⟨part, -, hpart⟩ := h
  rw [← hpart.fs]
  exact hpart.layout

theorem During.volume_eq {s u : System} {n : Nat} {v : Volume}
    (h : During s n v u) : volumeOf u = v := by
  obtain ⟨part, hu, hpart⟩ := h
  obtain ⟨hlayout, rfl⟩ := Partition.holds_iff.mp hpart
  exact (Partition.volume_congr hlayout hu.statics hu.sectors).symm

section Clusters

variable {s : System} {n : Nat} {v : Volume} {cluster : Nat}

theorem attempts_of_tries {α : Type} {program : Program System α} {a : α}
    {n' : Nat} {v' : Volume}
    (h : ∀ part, part.Holds v →
      ∃ part', Tries s n part program a n' part' ∧ part'.Holds v') :
    Attempts s n v program a n' v' := by
  rintro u ⟨part, hu, hpart⟩
  obtain ⟨part', htries, hpart'⟩ := h part hpart
  obtain ⟨u', hrun, hu'⟩ := htries u hu
  exact ⟨u', hrun, part', hu', hpart'⟩

theorem getFs_attempts : Attempts s n v getFs v.fs n v :=
  attempts_of_tries fun part hpart => ⟨part, by
    rw [← hpart.fs]
    exact getFs_tries, hpart⟩

theorem text_attempts (message : String) : Attempts s n v (text message) () n v :=
  attempts_of_tries fun part hpart => ⟨part, text_tries message, hpart⟩

def clusterLbas (fs : Fs) (cluster : Nat) : List Nat :=
  (List.range' 0 8).map (fs.clusterBeginLba + 8 * (cluster - 2) + ·)

theorem clusterLbas_length (fs : Fs) (cluster : Nat) :
    (clusterLbas fs cluster).length = 8 := by
  simp [clusterLbas]

theorem readCluster_attempts (hc : v.fs.InRange cluster) :
    Attempts s n v (readCluster cluster)
      (if Works s n (clusterLbas v.fs cluster) then some (v.data cluster) else none)
      (ended s n (clusterLbas v.fs cluster)) v := by
  refine attempts_of_tries fun part hpart => ⟨part, ?_, hpart⟩
  have hlayout := hpart.layout
  rw [← hpart.fs] at hc ⊢
  rw [← hpart.data cluster hc]
  refine Runs.bind getFs_tries ?_
  rw [hlayout.clusterToLba_eq hc, hlayout.sectorsPerCluster]
  obtain ⟨hlow, hhigh⟩ := hc
  have hend := hlayout.clustersEnd
  have hread : Tries s n part (readSectors _ 8 0 fun _ => 0) _ _ _ :=
    readSectors_tries (part.statics.fs.clusterBeginLba + 8 * (cluster - 2)) 8 0
      (fun _ => 0) (by omega)
  simp only [Nat.mul_zero, Nat.zero_add, Nat.reduceMul, Nat.zero_le,
    true_and] at hread
  exact hread

/-- The first sectors of a cluster are written until a transfer fails. -/
theorem writeCluster_attempts (buf : Buf) (hc : v.fs.InRange cluster) :
    Attempts s n v (writeCluster cluster buf)
      (if Works s n (clusterLbas v.fs cluster) then 0 else -1)
      (ended s n (clusterLbas v.fs cluster))
      (v.setData cluster fun k =>
        if k < 512 * worked s n (clusterLbas v.fs cluster) then buf k
        else v.data cluster k) := by
  apply attempts_of_tries
  intro part hpart
  have hlayout := hpart.layout
  rw [← hpart.fs] at hc ⊢
  have hcount := worked_le (s := s) n (clusterLbas part.statics.fs cluster)
  rw [clusterLbas_length] at hcount
  refine ⟨_, Runs.bind getFs_tries ?_, hpart.putCluster buf hc hcount⟩
  rw [hlayout.clusterToLba_eq hc, hlayout.sectorsPerCluster]
  obtain ⟨hlow, hhigh⟩ := hc
  have hend := hlayout.clustersEnd
  have hwrite : Tries s n part (writeSectors _ buf 8 0) _ _ _ :=
    writeSectors_tries (part.statics.fs.clusterBeginLba + 8 * (cluster - 2)) buf
      8 0 (by omega)
  simp only [Nat.add_zero, Nat.zero_add] at hwrite
  exact hwrite

theorem entry_of_partial (v : Volume) (buf : Buf) (count : Nat) {p : Place}
    (hp : p.2 < 128) :
    (v.setData p.1 fun k => if k < 512 * count then buf k else v.data p.1 k).entry p =
      if p.2 / 16 < count then entryAt buf p.2 else v.entry p := by
  simp only [Volume.entry, Volume.setData, Function.update_self]
  split
  · refine DirEntry.ofBytes_congr fun k hk => ?_
    simp only [Buf.clip]
    rw [if_pos (by omega), if_pos (by omega)]
  · refine DirEntry.ofBytes_congr fun k hk => ?_
    simp only [Buf.clip]
    rw [if_pos (by omega), if_neg (by omega)]

theorem getNextCluster_attempts (hc : cluster < v.fs.totalClusters + 2) :
    Attempts s n v (getNextCluster cluster)
      (if Fails s n (v.fs.fatSector cluster) then eoc else v.link cluster)
      (n + 1) v := by
  refine attempts_of_tries fun part hpart => ⟨part, ?_, hpart⟩
  have hlayout := hpart.layout
  rw [← hpart.fs] at hc ⊢
  have hend := hlayout.fatEnd
  have hclusters := hlayout.clustersEnd
  have hlarge := hlayout.fatLarge
  rw [← hpart.link cluster hc]
  refine Runs.bind getFs_tries ?_
  rw [hlayout.fatSector_eq hc]
  refine Runs.bind (readSector_tries (by omega)) ?_
  by_cases hfail : Fails s n (part.statics.fs.fatBeginLba + cluster / 128)
  · rw [if_pos hfail, if_pos hfail]
    exact Runs.pure _ _
  · rw [if_neg hfail, if_neg hfail, entryOffset_eq]
    exact Runs.pure _ _

/-! ## One link -/

/-- The write of the second FAT fails as transfer `n`. -/
def CopyFails (s : System) (n : Nat) (fs : Fs) (cluster : Nat) : Prop :=
  fs.numFats > 1 ∧ Fails s n (u32 (fs.fatSector cluster + fs.fatSize))

instance (s : System) (n : Nat) (fs : Fs) (cluster : Nat) :
    Decidable (CopyFails s n fs cluster) :=
  inferInstanceAs (Decidable (_ ∧ _))

section Link

variable (next : Nat) (hc : cluster < v.fs.totalClusters + 2)

include hc

/-- The sector with the entry of the cluster, which is read and written. -/
private theorem fatSector_lt {part : Partition} (hpart : part.Holds v) :
    v.fs.fatSector cluster = part.statics.fs.fatBeginLba + cluster / 128 ∧
      part.statics.fs.fatBeginLba + cluster / 128 < 4294967296 := by
  have hlayout := hpart.layout
  rw [← hpart.fs] at hc ⊢
  have hend := hlayout.fatEnd
  have hclusters := hlayout.clustersEnd
  have hlarge := hlayout.fatLarge
  exact ⟨hlayout.fatSector_eq hc, by omega⟩

theorem setNextCluster_attempts_unread (hread : Fails s n (v.fs.fatSector cluster)) :
    Attempts s n v (setNextCluster cluster next) (-1) (n + 1) v := by
  refine attempts_of_tries fun part hpart => ⟨part, ?_, hpart⟩
  obtain ⟨hsector, hlt⟩ := fatSector_lt hc hpart
  have htry : Tries s n part (readSector _) _ _ _ := readSector_tries hlt
  rw [hsector] at hread
  rw [if_pos hread] at htry
  rw [← hpart.fs] at hsector
  refine Runs.bind getFs_tries ?_
  rw [hsector]
  exact Runs.bind htry (Runs.pure _ _)

theorem setNextCluster_attempts_unwritten
    (hread : ¬ Fails s n (v.fs.fatSector cluster))
    (hwrite : Fails s (n + 1) (v.fs.fatSector cluster)) :
    Attempts s n v (setNextCluster cluster next) (-1) (n + 2) v := by
  refine attempts_of_tries fun part hpart => ⟨part, ?_, hpart⟩
  obtain ⟨hsector, hlt⟩ := fatSector_lt hc hpart
  have htry : Tries s n part (readSector _) _ _ _ := readSector_tries hlt
  rw [hsector] at hread hwrite
  rw [if_neg hread] at htry
  have hput : Tries s (n + 1) part (writeSector _ (linkedSector
      (part.sectors (part.statics.fs.fatBeginLba + cluster / 128)) cluster next))
      _ _ _ := writeSector_tries _ hlt
  rw [if_pos hwrite, if_pos hwrite] at hput
  rw [← hpart.fs] at hsector
  refine Runs.bind getFs_tries ?_
  rw [hsector]
  exact Runs.bind htry (Runs.bind hput (Runs.if_pos (by decide) (Runs.pure _ _)))

/-- The copy in the second FAT changes nothing the driver reads. -/
private theorem backup_tries {part : Partition} (sector : Sector)
    (hpart : part.Holds v) (hcopies : 1 < v.fs.numFats) :
    ∃ part', Tries s n part (do
      if (← writeSector (u32 (v.fs.fatSector cluster + v.fs.fatSize)) sector) ≠ 0 then
        return -1
      return 0)
      (if Fails s n (u32 (v.fs.fatSector cluster + v.fs.fatSize)) then -1 else 0)
      (n + 1) part' ∧ part'.Holds v := by
  obtain ⟨hsector, hlt⟩ := fatSector_lt hc hpart
  have hlayout := hpart.layout
  rw [hsector]
  rw [← hpart.fs] at hc hcopies ⊢
  have hend := hlayout.fatEnd
  have hbackup := hlayout.backupEnd hcopies
  have hclusters := hlayout.clustersEnd
  have hlarge := hlayout.fatLarge
  have hcopy : Tries s n part (writeSector
      (u32 (part.statics.fs.fatBeginLba + cluster / 128 + part.statics.fs.fatSize))
      sector) _ _ _ := writeSector_tries _ (Nat.mod_lt _ (by decide))
  have hafter : Partition.Holds (if Fails s n (u32 (part.statics.fs.fatBeginLba +
      cluster / 128 + part.statics.fs.fatSize)) then part else part.put (u32
      (part.statics.fs.fatBeginLba + cluster / 128 + part.statics.fs.fatSize))
      sector) v := by
    split
    · exact hpart
    · rw [u32_of_lt (by omega)]
      exact hpart.putApart _ _ (by omega) ⟨.inr (by omega), .inl (by omega)⟩
  refine ⟨_, Runs.bind hcopy ?_, hafter⟩
  split
  · exact Runs.if_pos (by decide) (Runs.pure _ _)
  · exact Runs.if_neg (by decide) (Runs.pure _ _)

/-- Once the first FAT is written the link is there, whatever the call returns. -/
theorem setNextCluster_attempts_linked
    (hread : ¬ Fails s n (v.fs.fatSector cluster))
    (hwrite : ¬ Fails s (n + 1) (v.fs.fatSector cluster)) :
    Attempts s n v (setNextCluster cluster next)
      (if CopyFails s (n + 2) v.fs cluster then -1 else 0)
      (if v.fs.numFats > 1 then n + 3 else n + 2) (v.setLink cluster next) := by
  refine attempts_of_tries fun part hpart => ?_
  have hlater := hpart.setLink next (hpart.fs ▸ hc)
  obtain ⟨hsector, hlt⟩ := fatSector_lt hc hpart
  have htry : Tries s n part (readSector _) _ _ _ := readSector_tries hlt
  have hput : Tries s (n + 1) part (writeSector _ (linkedSector
      (part.sectors (part.statics.fs.fatBeginLba + cluster / 128)) cluster next))
      _ _ _ := writeSector_tries _ hlt
  rw [hsector] at hread hwrite
  rw [if_neg hread] at htry
  rw [if_neg hwrite, if_neg hwrite] at hput
  rw [← hsector] at htry hput hlater
  by_cases hcopies : v.fs.numFats > 1
  · obtain ⟨last, hcopy, hlast⟩ := backup_tries (s := s) (n := n + 2)
      (v := v.setLink cluster next) hc
      (linkedSector (part.sectors (v.fs.fatSector cluster)) cluster next) hlater
      hcopies
    have hstatus : (if CopyFails s (n + 2) v.fs cluster then (-1 : Int) else 0) =
        if Fails s (n + 2) (u32 (v.fs.fatSector cluster + v.fs.fatSize)) then -1
        else 0 := if_congr (and_iff_right hcopies) rfl rfl
    refine ⟨last, Runs.bind getFs_tries ?_, hlast⟩
    rw [hpart.fs, if_pos hcopies, hstatus]
    exact Runs.bind htry (Runs.bind hput (Runs.if_neg (by decide)
      (Runs.if_pos hcopies hcopy)))
  · refine ⟨_, Runs.bind getFs_tries ?_, hlater⟩
    rw [hpart.fs, if_neg hcopies, if_neg fun h : CopyFails _ _ _ _ => hcopies h.1]
    exact Runs.bind htry (Runs.bind hput (Runs.if_neg (by decide)
      (Runs.if_neg hcopies (Runs.pure _ _))))

end Link

/-! ## The free count and FSInfo -/

theorem modifyCount_attempts (count : Nat → Nat) :
    Attempts s n v (modifyFat32 fun st =>
      { st with freeClusters := count st.freeClusters }) () n
      (v.setCount (count v.freeClusters)) := by
  refine attempts_of_tries fun part hpart => ⟨part.withStatics fun st =>
    { st with freeClusters := count st.freeClusters }, fun u hu => ?_, ?_⟩
  · refine ⟨{ u with fat32 :=
      { u.fat32 with freeClusters := count u.fat32.freeClusters } }, rfl,
      hu.present, hu.faults, ?_, hu.offset, hu.sectors⟩
    simp only [hu.statics, Partition.withStatics]
  · refine ⟨hpart.layout, hpart.fs, ?_, hpart.info, hpart.infoOutside, hpart.link,
      hpart.data, hpart.linkOutside, hpart.dataOutside⟩
    rw [Volume.setCount, ← hpart.freeClusters]
    rfl

private theorem updateFsinfo_attempts (hfat : 2 ≤ v.fs.fatBeginLba)
    (hcopy : ¬ signatureAt v.info ∨ v.fs.Apart 7) (freeCount nextFree : Nat) :
    ∃ r n' info, Attempts s n v (updateFsinfo freeCount nextFree) r n'
      (v.setInfo info) := by
  have hread : ∀ part : Partition, Tries s n part (readSector 1) _ _ _ :=
    fun _ => readSector_tries (by decide)
  by_cases hunread : Fails s n 1
  · refine ⟨-1, n + 1, v.info, attempts_of_tries fun part hpart => ⟨part, ?_, hpart⟩⟩
    have htry := hread part
    rw [if_pos hunread] at htry
    exact Runs.bind htry (Runs.pure _ _)
  by_cases hsignature : signatureAt v.info
  · have hcopy := hcopy.resolve_left (not_not.mpr hsignature)
    by_cases hunwritten : Fails s (n + 1) 1
    · refine ⟨-1, n + 2, v.info, attempts_of_tries fun part hpart =>
        ⟨part, ?_, hpart⟩⟩
      have htry := hread part
      have hwrite : Tries s (n + 1) part
          (writeSector 1 (infoSector v.info freeCount nextFree)) _ _ _ :=
        writeSector_tries _ (by decide)
      rw [if_neg hunread, hpart.info (hpart.fs ▸ hfat)] at htry
      rw [if_pos hunwritten, if_pos hunwritten] at hwrite
      exact Runs.bind htry (Runs.if_neg (not_not.mpr hsignature)
        (Runs.bind hwrite (Runs.if_pos (by decide) (Runs.pure _ _))))
    · refine ⟨0, n + 3, infoSector v.info freeCount nextFree, attempts_of_tries
        fun part hpart => ?_⟩
      have hfat' : 2 ≤ part.statics.fs.fatBeginLba := hpart.fs ▸ hfat
      have htry := hread part
      have hwrite : Tries s (n + 1) part
          (writeSector 1 (infoSector v.info freeCount nextFree)) _ _ _ :=
        writeSector_tries _ (by decide)
      rw [if_neg hunread, hpart.info hfat'] at htry
      rw [if_neg hunwritten, if_neg hunwritten] at hwrite
      have hlast : Tries s (n + 2) (part.put 1 (infoSector v.info freeCount nextFree))
          (writeSector 7 (infoSector v.info freeCount nextFree)) _ _ _ :=
        writeSector_tries _ (by decide)
      refine ⟨_, Runs.bind htry (Runs.if_neg (not_not.mpr hsignature)
        (Runs.bind hwrite (Runs.if_neg (by decide)
          (Runs.bind hlast (Runs.pure _ _))))), ?_⟩
      have hput := hpart.putInfo hfat' (infoSector v.info freeCount nextFree)
      split
      · exact hput
      · exact hput.putApart 7 _ (fun _ => by decide) (hpart.fs ▸ hcopy)
  · refine ⟨-1, n + 1, v.info, attempts_of_tries fun part hpart => ⟨part, ?_, hpart⟩⟩
    have htry := hread part
    rw [if_neg hunread, hpart.info (hpart.fs ▸ hfat)] at htry
    exact Runs.bind htry (Runs.if_pos hsignature (Runs.pure _ _))

theorem updateFsinfoIfKnown_attempts (hinfo : v.InfoApart) (nextFree : Nat) :
    ∃ n' info, Attempts s n v (updateFsinfoIfKnown nextFree) () n'
      (v.setInfo info) := by
  have hget : ∀ {n' : Nat} {v' : Volume} {next : Statics → Program System Unit},
      (∀ st : Statics, st.freeClusters = v.freeClusters →
        Attempts s n v (next st) () n' v') →
      Attempts s n v (getFat32 >>= next) () n' v' := by
    rintro n' v' next h u ⟨part, hu, hpart⟩
    have hcount : u.fat32.freeClusters = v.freeClusters := by
      rw [hu.statics, hpart.freeClusters]
    obtain ⟨u', hrun, hu'⟩ := h u.fat32 hcount u ⟨part, hu, hpart⟩
    exact ⟨u', hrun, hu'⟩
  by_cases hknown : v.freeClusters ≠ unknownCount
  · obtain ⟨hfat, hcopy⟩ := hinfo.resolve_left hknown
    obtain ⟨r, n', info, hupdate⟩ := updateFsinfo_attempts (s := s) (n := n) hfat hcopy
      v.freeClusters nextFree
    refine ⟨n', info, hget fun st hst => ?_⟩
    rw [hst]
    exact Runs.if_pos hknown (Runs.bind hupdate (Runs.pure _ _))
  · refine ⟨n, v.info, hget fun st hst => ?_⟩
    rw [hst]
    exact Runs.if_neg hknown (Runs.pure _ _)

end Clusters

end EntropyOS.Fat32
