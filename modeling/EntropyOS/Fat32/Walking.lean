import EntropyOS.Fat32.Directory
import EntropyOS.Fat32.Faults

/-!
# Directories of any volume

On a fault-free device the directory loops only read.  What they find is a
function of the contents and links of the clusters they pass, whatever the
geometry is and whatever the disk holds.
-/

namespace EntropyOS.Fat32

open EntropyOS.Foundation

/-! ## The cluster buffers -/

/--
The indices into a cluster buffer, by the expressions the driver uses.  The arrays
of the source have 4096 bytes; a `Buf` has no end.
-/
inductive ClusterIndex (fs : Fs) : Nat → Prop
  -- `buf + (i * 512)`, a sector that is read or written
  | sector {i k : Nat} :
      i < fs.sectorsPerCluster → k < 512 → ClusterIndex fs (i * 512 + k)
  -- `entries[i]` of a scan, and the entry it ends on
  | entry {i k : Nat} :
      i < fs.entriesPerCluster → k < 32 → ClusterIndex fs (32 * i + k)
  -- `dot_entries[0]` and `dot_entries[1]`
  | dot {i k : Nat} : i < 2 → k < 32 → ClusterIndex fs (32 * i + k)
  -- `memset`, `memcpy` and `memcmp` over a whole cluster
  | whole {k : Nat} : k < fs.clusterBytes → ClusterIndex fs k
  -- `chunk` bytes of a file
  | chunk {remaining k : Nat} : k < min remaining fs.clusterBytes → ClusterIndex fs k
  -- `cluster_buffer + off`, the bytes of a snippet
  | snippet {off wanted k : Nat} :
      k < min (fs.clusterBytes - off) wanted → ClusterIndex fs (off + k)

theorem ClusterIndex.lt {fs : Fs} {k : Nat} (h : ClusterIndex fs k) :
    k < max 64 fs.clusterBytes := by
  cases h with
  | sector hi hk =>
      rw [Fs.clusterBytes]
      omega
  | entry hi hk =>
      rw [Fs.entriesPerCluster] at hi
      omega
  | dot hi hk => omega
  | whole hk => omega
  | chunk hk => omega
  | snippet hk => omega

theorem clusterIndex_iff (fs : Fs) :
    (∀ k, ClusterIndex fs k → k < 4096) ↔ fs.sectorsPerCluster ≤ 8 := by
  constructor
  · intro h
    by_contra hlarge
    have hbeyond := h _ (.sector (i := 8) (k := 0) (by omega) (by omega))
    omega
  · intro hsize k hk
    have hlt := hk.lt
    rw [Fs.clusterBytes] at hlt
    omega

/-! ## Reading without faults -/

section FaultFree

variable {s : System} (hs : s.device.FaultFree)

include hs

theorem readSector_faultFree (lba : Nat) :
    readSector lba s = some (some (volumeSector s lba), s) :=
  blockReadSector_eq hs _

theorem readSectors_faultFree (lba count i : Nat) (buf : Buf) :
    readSectors lba count i buf s = some (some fun k =>
      if 512 * i ≤ k ∧ k < 512 * (i + count) then
        (volumeSector s (lba + k / 512)).toBuf (k % 512)
      else buf k, s) := by
  induction count generalizing i buf with
  | zero =>
      rw [putSector_none fun k => volumeSector s (lba + k)]
      rfl
  | succ count ih =>
      rw [readSectors, Program.bind_of_some (readSector_faultFree hs _)]
      simp only
      rw [ih]
      have hbuf := putSector_overlay (fun k => volumeSector s (lba + k)) buf i count
      rw [hbuf]

theorem readCluster_faultFree (cluster : Nat) :
    readCluster cluster s = some (some (clusterData s cluster), s) := by
  rw [readCluster, Program.bind_of_some (getFs_apply s), readSectors_faultFree hs]
  congr 3
  funext k
  refine if_congr ?_ rfl rfl
  rw [Fs.clusterBytes]
  omega

theorem getNextCluster_faultFree (cluster : Nat) :
    getNextCluster cluster s = some (linkOf s cluster, s) := by
  rw [getNextCluster, Program.bind_of_some (getFs_apply s),
    Program.bind_of_some (readSector_faultFree hs _)]
  rfl

end FaultFree

/-! ## Storing a link -/

def volumePut (s : System) (lba : Nat) (sector : Sector) : System :=
  s.put (u64 (s.fat32.partitionOffset + lba)) sector

theorem writeSector_faultFree {s : System} (hs : s.device.FaultFree) (lba : Nat)
    (sector : Sector) :
    writeSector lba sector s = some (0, volumePut s lba sector) :=
  blockWriteSector_eq hs _ _

theorem volumePut_faultFree {s : System} (hs : s.device.FaultFree) (lba : Nat)
    (sector : Sector) : (volumePut s lba sector).device.FaultFree :=
  hs.put _ _

def withLink (s : System) (cluster next : Nat) : System :=
  let fs := s.fat32.fs
  let linked := linkedSector (volumeSector s (fs.fatSector cluster)) cluster next
  let first := volumePut s (fs.fatSector cluster) linked
  if fs.numFats > 1 then
    volumePut first (u32 (fs.fatSector cluster + fs.fatSize)) linked
  else first

section Link

variable (s : System) (cluster next : Nat)

@[simp] theorem withLink_fat32 : (withLink s cluster next).fat32 = s.fat32 := by
  unfold withLink
  dsimp only
  split
  · rfl
  · rfl

/-- The one or two sectors that hold the entry afterwards. -/
theorem volumeSector_withLink {lba : Nat} (hlba : lba < 4294967296) :
    volumeSector (withLink s cluster next) lba =
      if lba = s.fat32.fs.fatSector cluster ∨ s.fat32.fs.numFats > 1 ∧
          lba = u32 (s.fat32.fs.fatSector cluster + s.fat32.fs.fatSize) then
        linkedSector (volumeSector s (s.fat32.fs.fatSector cluster)) cluster next
      else volumeSector s lba := by
  have hput : ∀ (u : System) {other : Nat} (sector : Sector), other < 4294967296 →
      volumeSector (volumePut u other sector) lba =
        if lba = other then sector else volumeSector u lba :=
    fun u _ sector hother => volumeSector_put u sector hother hlba
  have hsector : s.fat32.fs.fatSector cluster < 4294967296 := u32_lt _
  unfold withLink
  dsimp only
  by_cases hcopies : s.fat32.fs.numFats > 1
  · rw [if_pos hcopies, hput _ _ (u32_lt _), hput _ _ hsector]
    simp only [hcopies, true_and]
    by_cases hbackup : lba = u32 (s.fat32.fs.fatSector cluster + s.fat32.fs.fatSize)
    · rw [if_pos hbackup, if_pos (.inr hbackup)]
    · simp only [hbackup, if_false, or_false]
  · rw [if_neg hcopies, hput _ _ hsector]
    simp only [hcopies, false_and, or_false]

theorem withLink_sectors {lba : Nat}
    (hfirst : lba ≠ u64 (s.fat32.partitionOffset + s.fat32.fs.fatSector cluster))
    (hbackup : s.fat32.fs.numFats > 1 → lba ≠ u64 (s.fat32.partitionOffset +
      u32 (s.fat32.fs.fatSector cluster + s.fat32.fs.fatSize))) :
    (withLink s cluster next).device.sectors lba = s.device.sectors lba := by
  unfold withLink
  dsimp only
  split
  · next hcopies =>
      refine (Function.update_of_ne (hbackup hcopies) _ _).trans ?_
      exact Function.update_of_ne hfirst _ _
  · exact Function.update_of_ne hfirst _ _

variable {s} (hs : s.device.FaultFree)

include hs

theorem withLink_faultFree : (withLink s cluster next).device.FaultFree := by
  unfold withLink
  dsimp only
  split
  · exact volumePut_faultFree (volumePut_faultFree hs _ _) _ _
  · exact volumePut_faultFree hs _ _

theorem setNextCluster_faultFree :
    setNextCluster cluster next s = some (0, withLink s cluster next) := by
  unfold setNextCluster withLink
  rw [Program.bind_of_some (getFs_apply s),
    Program.bind_of_some (readSector_faultFree hs _)]
  dsimp only
  rw [Program.bind_of_some (writeSector_faultFree hs _ _), if_neg (by decide)]
  split
  · rw [Program.bind_of_some (writeSector_faultFree (volumePut_faultFree hs _ _) _ _),
      if_neg (by decide)]
    rfl
  · rfl

end Link

/-! ## Walks -/

/-- The links and the clusters of the disk, whether or not they make sense. -/
def diskVolume (s : System) : Volume where
  fs := s.fat32.fs
  link := linkOf s
  data := clusterData s
  freeClusters := s.fat32.freeClusters
  info := volumeSector s 1

/-- The places of the clusters `l`, with the geometry of this volume. -/
def Fs.places (fs : Fs) (l : List Nat) : List Place :=
  l.flatMap fun c => placesFrom c 0 fs.entriesPerCluster

theorem Fs.places_cons (fs : Fs) (c : Nat) (l : List Nat) :
    fs.places (c :: l) = placesFrom c 0 fs.entriesPerCluster ++ fs.places l := by
  simp [Fs.places]

section Walks

variable {s : System} (hs : s.device.FaultFree) {first last : Nat} {l : List Nat}
  (hwalk : Walk (linkOf s) Live first l last)

include hs hwalk

theorem findEntry_walk (name : Name) :
    findEntry first name s =
      some (((diskVolume s).lookup name (s.fat32.fs.places l)).map
        (diskVolume s).locate, s) := by
  induction hwalk with
  | stop hstop =>
      rw [findEntry, if_neg hstop]
      rfl
  | @step c last l hlive _ ih =>
      rw [findEntry, if_pos hlive,
        Program.bind_of_some (readCluster_faultFree hs c), Fs.places_cons,
        Volume.lookup_placesFrom]
      simp only
      rw [Program.bind_of_some (getFs_apply s)]
      rw [show (diskVolume s).data c = clusterData s c from rfl]
      cases findIn name (clusterData s c) s.fat32.fs.entriesPerCluster 0 with
      | found i => rfl
      | stop => rfl
      | more =>
          simp only
          rw [Program.bind_of_some (getNextCluster_faultFree hs c)]
          exact ih

theorem findSlot_walk (skip : Nat → Nat → DirEntry → Bool) (name : Name)
    (slot : Option Place) :
    findSlot skip name first (slot.map (diskVolume s).slotAt) s =
      some ((diskVolume s).search ((diskVolume s).choose skip name
        (s.fat32.fs.places l) slot), s) := by
  induction hwalk generalizing slot with
  | stop hstop =>
      rw [findSlot, if_neg hstop]
      rfl
  | @step c last l hlive _ ih =>
      have hscan := (diskVolume s).choose_placesFrom skip name c 0
        s.fat32.fs.entriesPerCluster (s.fat32.fs.places l) slot
      rw [findSlot, if_pos hlive,
        Program.bind_of_some (readCluster_faultFree hs c), Fs.places_cons]
      simp only
      rw [Program.bind_of_some (getFs_apply s)]
      rw [← show (diskVolume s).data c = clusterData s c from rfl]
      cases hresult : scanIn (skip c) name c ((diskVolume s).data c)
          s.fat32.fs.entriesPerCluster 0 (slot.map (diskVolume s).slotAt) with
      | found i =>
          rw [hresult] at hscan
          rw [hscan]
          rfl
      | stop found =>
          rw [hresult] at hscan
          obtain ⟨p, rfl, hchoose⟩ := hscan
          rw [hchoose]
          rfl
      | more found =>
          rw [hresult] at hscan
          obtain ⟨p, rfl, hchoose⟩ := hscan
          rw [hchoose]
          simp only
          rw [Program.bind_of_some (getNextCluster_faultFree hs c)]
          exact ih p

end Walks

end EntropyOS.Fat32
