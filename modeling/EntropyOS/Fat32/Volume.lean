import EntropyOS.Fat32.Partition

/-!
# Volumes

A volume is what the driver makes of a partition: links between clusters,
cluster contents, and the free count.  The layout keeps these apart on disk,
so each can be changed on its own.
-/

namespace EntropyOS.Fat32

open EntropyOS.Foundation

/--
The layout of a mounted volume.  Both copies of the FAT and the clusters
follow each other and no sector number wraps.
-/
structure Fs.Layout (fs : Fs) : Prop where
  initialized : fs.initialized = true
  sectorsPerCluster : fs.sectorsPerCluster = 8
  fatEnd : fs.fatBeginLba + fs.fatSize ≤ fs.clusterBeginLba
  backupEnd : 1 < fs.numFats →
    fs.fatBeginLba + 2 * fs.fatSize ≤ fs.clusterBeginLba
  clustersEnd : fs.clusterBeginLba + 8 * fs.totalClusters ≤ 4294967296
  fatLarge : fs.totalClusters + 2 ≤ 128 * fs.fatSize

def Fs.InRange (fs : Fs) (cluster : Nat) : Prop :=
  2 ≤ cluster ∧ cluster < fs.totalClusters + 2

instance (fs : Fs) (cluster : Nat) : Decidable (fs.InRange cluster) :=
  inferInstanceAs (Decidable (_ ∧ _))

/-- Sectors that belong neither to the first FAT nor to the clusters. -/
def Fs.Apart (fs : Fs) (lba : Nat) : Prop :=
  (lba < fs.fatBeginLba ∨ fs.fatBeginLba + fs.fatSize ≤ lba) ∧
    (lba < fs.clusterBeginLba ∨ fs.clusterBeginLba + 8 * fs.totalClusters ≤ lba)

instance (fs : Fs) (lba : Nat) : Decidable (fs.Apart lba) :=
  inferInstanceAs (Decidable (_ ∧ _))

@[ext] structure Volume where
  fs : Fs
  link : Nat → Nat
  data : Nat → Buf
  freeClusters : Nat
  info : Sector

namespace Volume

def setLink (v : Volume) (cluster next : Nat) : Volume :=
  { v with link := Function.update v.link cluster (next % 268435456) }

def setData (v : Volume) (cluster : Nat) (buf : Buf) : Volume :=
  { v with data := Function.update v.data cluster (buf.clip 4096) }

def setCount (v : Volume) (count : Nat) : Volume :=
  { v with freeClusters := count }

def setInfo (v : Volume) (info : Sector) : Volume :=
  { v with info := info }

section Fields

variable (v : Volume) (cluster next count : Nat) (buf : Buf) (info : Sector)

@[simp] theorem setLink_fs : (v.setLink cluster next).fs = v.fs := rfl
@[simp] theorem setLink_data : (v.setLink cluster next).data = v.data := rfl
@[simp] theorem setLink_count :
    (v.setLink cluster next).freeClusters = v.freeClusters := rfl

@[simp] theorem setData_fs : (v.setData cluster buf).fs = v.fs := rfl
@[simp] theorem setData_link : (v.setData cluster buf).link = v.link := rfl

@[simp] theorem setCount_fs : (v.setCount count).fs = v.fs := rfl
@[simp] theorem setCount_link : (v.setCount count).link = v.link := rfl
@[simp] theorem setCount_data : (v.setCount count).data = v.data := rfl

@[simp] theorem setInfo_fs : (v.setInfo info).fs = v.fs := rfl
@[simp] theorem setInfo_link : (v.setInfo info).link = v.link := rfl
@[simp] theorem setInfo_data : (v.setInfo info).data = v.data := rfl

end Fields

end Volume

namespace Partition

def link (part : Partition) (cluster : Nat) : Nat :=
  readLe (part.sectors
    (part.statics.fs.fatBeginLba + cluster / 128)).toBuf
    (4 * (cluster % 128)) 4 % 268435456

def data (part : Partition) (cluster : Nat) : Buf := fun k =>
  if k < 4096 then
    (part.sectors (part.statics.fs.clusterBeginLba + 8 * (cluster - 2) +
      k / 512)).toBuf (k % 512)
  else 0

structure Holds (part : Partition) (v : Volume) : Prop where
  layout : part.statics.fs.Layout
  fs : part.statics.fs = v.fs
  freeClusters : part.statics.freeClusters = v.freeClusters
  info : 2 ≤ part.statics.fs.fatBeginLba → part.sectors 1 = v.info
  infoOutside : part.statics.fs.fatBeginLba < 2 → v.info = Sector.zero
  link : ∀ c < part.statics.fs.totalClusters + 2, part.link c = v.link c
  data : ∀ c, part.statics.fs.InRange c → part.data c = v.data c
  linkOutside : ∀ c, part.statics.fs.totalClusters + 2 ≤ c → v.link c = free
  dataOutside : ∀ c, ¬ part.statics.fs.InRange c → v.data c = fun _ => 0

end Partition

/--
The volume on a partition.  Nothing is read where it has no clusters, nor an
FSInfo sector where the FAT begins before it.
-/
def Partition.volume (part : Partition) : Volume where
  fs := part.statics.fs
  link := fun c =>
    if c < part.statics.fs.totalClusters + 2 then part.link c else free
  data := fun c => if part.statics.fs.InRange c then part.data c else fun _ => 0
  freeClusters := part.statics.freeClusters
  info := if 2 ≤ part.statics.fs.fatBeginLba then part.sectors 1 else Sector.zero

theorem Partition.holds_iff {part : Partition} {v : Volume} :
    part.Holds v ↔ part.statics.fs.Layout ∧ part.volume = v := by
  constructor
  · intro h
    refine ⟨h.layout, Volume.ext h.fs ?_ ?_ h.freeClusters ?_⟩
    · funext c
      simp only [Partition.volume]
      split
      · next hc => exact h.link c hc
      · next hc => exact (h.linkOutside c (not_lt.mp hc)).symm
    · funext c
      simp only [Partition.volume]
      split
      · next hc => exact h.data c hc
      · next hc => exact (h.dataOutside c hc).symm
    · simp only [Partition.volume]
      split
      · next hinfo => exact h.info hinfo
      · next hinfo => exact (h.infoOutside (not_le.mp hinfo)).symm
  · rintro ⟨hlayout, rfl⟩
    constructor
    case layout => exact hlayout
    case fs | freeClusters => rfl
    case info => exact fun hinfo => (if_pos hinfo).symm
    case infoOutside => exact fun hinfo => if_neg (not_le.mpr hinfo)
    case link => exact fun c hc => (if_pos hc).symm
    case data => exact fun c hc => (if_pos hc).symm
    case linkOutside => exact fun c hc => if_neg (not_lt.mpr hc)
    case dataOutside => exact fun c hc => if_neg hc

def partitionOf (s : System) : Partition := ⟨s.fat32, volumeSector s⟩

def volumeOf (s : System) : Volume := (partitionOf s).volume

def Represents (s : System) (v : Volume) : Prop :=
  ∃ part, Shows s part ∧ part.Holds v

/-- The sectors a volume needs have numbers below `2 ^ 32`. -/
theorem Partition.volume_congr {part : Partition} {s : System}
    (hlayout : part.statics.fs.Layout) (hstatics : s.fat32 = part.statics)
    (hread : ∀ lba < 4294967296, volumeSector s lba = part.sectors lba) :
    part.volume = volumeOf s := by
  have hend := hlayout.clustersEnd
  have hfat := hlayout.fatEnd
  have hlarge := hlayout.fatLarge
  have hpart : (partitionOf s).statics = part.statics := hstatics
  have hsectors : ∀ lba < 4294967296,
      (partitionOf s).sectors lba = part.sectors lba := hread
  refine Volume.ext ?_ ?_ ?_ ?_ ?_
  · simp only [volumeOf, Partition.volume, hpart]
  · funext c
    simp only [volumeOf, Partition.volume, hpart]
    split
    · simp only [Partition.link, hpart]
      rw [hsectors _ (by omega)]
    · rfl
  · funext c
    simp only [volumeOf, Partition.volume, hpart]
    split
    · next hc =>
        obtain ⟨hlow, hhigh⟩ := hc
        funext k
        simp only [Partition.data, hpart]
        split
        · rw [hsectors _ (by omega)]
        · rfl
    · rfl
  · simp only [volumeOf, Partition.volume, hpart]
  · simp only [volumeOf, Partition.volume, hpart]
    rw [hsectors 1 (by omega)]

theorem Shows.volume_eq {s : System} {part : Partition} (h : Shows s part)
    (hlayout : part.statics.fs.Layout) : part.volume = volumeOf s :=
  Partition.volume_congr hlayout h.statics h.sectors

/-- A mounted volume on a fault-free device is represented, by itself only. -/
theorem represents_iff {s : System} {v : Volume} :
    Represents s v ↔
      s.device.FaultFree ∧ s.fat32.fs.Layout ∧ volumeOf s = v := by
  constructor
  · rintro ⟨part, hs, hpart⟩
    obtain ⟨hlayout, rfl⟩ := Partition.holds_iff.mp hpart
    refine ⟨hs.faultFree, ?_, (hs.volume_eq hlayout).symm⟩
    rw [hs.statics]
    exact hlayout
  · rintro ⟨hfault, hlayout, rfl⟩
    exact ⟨partitionOf s, ⟨hfault, rfl, fun _ _ => rfl⟩,
      Partition.holds_iff.mpr ⟨hlayout, rfl⟩⟩

abbrev Executes {α : Type} (v : Volume) (program : Program System α) (a : α)
    (v' : Volume) : Prop :=
  Runs Represents v program a v'

theorem Represents.layout {s : System} {v : Volume} (h : Represents s v) :
    v.fs.Layout := by
  obtain ⟨part, -, hpart⟩ := h
  rw [← hpart.fs]
  exact hpart.layout

theorem executes_of_moves {α : Type} {v v' : Volume}
    {program : Program System α} {a : α}
    (h : ∀ part, part.Holds v →
      ∃ part', Moves part program a part' ∧ part'.Holds v') :
    Executes v program a v' := by
  rintro s ⟨part, hs, hpart⟩
  obtain ⟨part', hmoves, hpart'⟩ := h part hpart
  obtain ⟨s', hrun, hs'⟩ := hmoves s hs
  exact ⟨s', hrun, part', hs', hpart'⟩

theorem executes_of_still {α : Type} {v : Volume} {program : Program System α}
    {a : α} (h : ∀ part, part.Holds v → Moves part program a part) :
    Executes v program a v :=
  executes_of_moves fun part hpart => ⟨part, h part hpart, hpart⟩

theorem getFs_executes (v : Volume) : Executes v getFs v.fs v :=
  executes_of_still fun part hpart => by
    rw [← hpart.fs]
    exact getFs_moves part

theorem text_executes (v : Volume) (message : String) :
    Executes v (text message) () v :=
  executes_of_still fun part _ => text_moves part message

theorem flushIfSata_executes (v : Volume) (warning : String) :
    Executes v (flushIfSata warning) () v :=
  executes_of_still fun part _ => flushIfSata_moves part warning

/-! ## Clusters -/

section Clusters

variable {fs : Fs} {cluster : Nat}

theorem Fs.Layout.lt (h : fs.Layout) (hc : cluster < fs.totalClusters + 2) :
    cluster < 1073741824 := by
  have hend := h.clustersEnd
  omega

theorem Fs.Layout.clusterToLba_eq (h : fs.Layout) (hc : fs.InRange cluster) :
    fs.clusterToLba cluster = fs.clusterBeginLba + 8 * (cluster - 2) := by
  obtain ⟨hlow, hhigh⟩ := hc
  have hend := h.clustersEnd
  simp only [Fs.clusterToLba, h.sectorsPerCluster, u32]
  omega

theorem Fs.Layout.entriesPerCluster_eq (h : fs.Layout) :
    fs.entriesPerCluster = 128 := by
  simp [Fs.entriesPerCluster, Fs.clusterBytes, h.sectorsPerCluster]

theorem Fs.Layout.clusterBytes_eq (h : fs.Layout) : fs.clusterBytes = 4096 := by
  simp [Fs.clusterBytes, h.sectorsPerCluster]

end Clusters

theorem readCluster_executes (v : Volume) {cluster : Nat}
    (hc : v.fs.InRange cluster) :
    Executes v (readCluster cluster) (some (v.data cluster)) v := by
  refine executes_of_still fun part hpart => ?_
  have hlayout := hpart.layout
  rw [← hpart.fs] at hc
  rw [← hpart.data cluster hc]
  refine Runs.bind (getFs_moves part) ?_
  rw [hlayout.clusterToLba_eq hc, hlayout.sectorsPerCluster]
  obtain ⟨hlow, hhigh⟩ := hc
  have hend := hlayout.clustersEnd
  have hread := readSectors_moves part
    (part.statics.fs.clusterBeginLba + 8 * (cluster - 2)) 8 0 (fun _ => 0)
    (by omega)
  simp only [Nat.mul_zero, Nat.zero_add, Nat.reduceMul, Nat.zero_le,
    true_and] at hread
  exact hread

/-- Where each piece of a volume lies, when sectors `lba` on are replaced. -/
theorem Partition.link_putAll {part : Partition} (hlayout : part.statics.fs.Layout)
    {lba count cluster : Nat} (f : Nat → Sector)
    (hlba : part.statics.fs.clusterBeginLba ≤ lba)
    (hc : cluster < part.statics.fs.totalClusters + 2) :
    (part.putAll lba count f).link cluster = part.link cluster := by
  have hend := hlayout.fatEnd
  have hlarge := hlayout.fatLarge
  simp only [Partition.link, Partition.putAll]
  rw [if_neg (by omega)]

theorem Partition.Holds.putCluster {part : Partition} {v : Volume}
    (hpart : part.Holds v) {cluster count : Nat} (buf : Buf)
    (hc : part.statics.fs.InRange cluster) (hcount : count ≤ 8) :
    (part.putAll (part.statics.fs.clusterBeginLba + 8 * (cluster - 2)) count
      fun j => Sector.ofBuf fun k => buf (512 * j + k)).Holds
      (v.setData cluster fun k =>
        if k < 512 * count then buf k else v.data cluster k) := by
  have hlayout := hpart.layout
  have hlow := hc.1
  have hhigh := hc.2
  have hend := hlayout.clustersEnd
  have hfat := hlayout.fatEnd
  constructor
  case layout => exact hlayout
  case fs => exact hpart.fs
  case freeClusters => exact hpart.freeClusters
  case info =>
    intro hinfo
    change 2 ≤ part.statics.fs.fatBeginLba at hinfo
    simp only [Partition.putAll]
    rw [if_neg (by omega)]
    exact hpart.info hinfo
  case infoOutside => exact hpart.infoOutside
  case link =>
    intro c hc
    rw [Partition.link_putAll hlayout _ (by omega) hc]
    exact hpart.link c hc
  case data =>
    intro c hc'
    have hlow' := hc'.1
    funext k
    have hold := congrFun (hpart.data c hc') k
    simp only [Partition.data, Partition.putAll, Volume.setData] at hold ⊢
    by_cases hsame : c = cluster
    · rw [hsame, Function.update_self, Buf.clip]
      rw [hsame] at hold
      split
      · next hk =>
          rw [if_pos hk] at hold
          by_cases hin : k < 512 * count
          · rw [if_pos (by omega), if_pos hin, Sector.toBuf_ofBuf _ (by omega)]
            congr 1
            omega
          · rw [if_neg (by omega), if_neg hin, hold]
      · rfl
    · rw [Function.update_of_ne hsame, ← hold]
      split
      · rw [if_neg (by omega)]
      · rfl
  case linkOutside => exact hpart.linkOutside
  case dataOutside =>
    intro c hout
    have hne : c ≠ cluster := fun heq => hout (heq ▸ hc)
    simp only [Volume.setData, Function.update_of_ne hne]
    exact hpart.dataOutside c hout

theorem Volume.setData_congr (v : Volume) (cluster : Nat) {buf buf' : Buf}
    (h : ∀ k < 4096, buf k = buf' k) :
    v.setData cluster buf = v.setData cluster buf' := by
  have hclip : buf.clip 4096 = buf'.clip 4096 := by
    funext k
    simp only [Buf.clip]
    split
    · next hk => exact h k hk
    · rfl
  rw [Volume.setData, Volume.setData, hclip]

theorem writeCluster_executes (v : Volume) {cluster : Nat} (buf : Buf)
    (hc : v.fs.InRange cluster) :
    Executes v (writeCluster cluster buf) 0 (v.setData cluster buf) := by
  refine executes_of_moves fun part hpart => ?_
  have hlayout := hpart.layout
  rw [← hpart.fs] at hc
  have hlow := hc.1
  have hhigh := hc.2
  have hend := hlayout.clustersEnd
  have hwrite : Moves part (writeCluster cluster buf) 0
      (part.putAll (part.statics.fs.clusterBeginLba + 8 * (cluster - 2)) 8
        fun j => Sector.ofBuf fun k => buf (512 * j + k)) := by
    refine Runs.bind (getFs_moves part) ?_
    rw [hlayout.clusterToLba_eq hc, hlayout.sectorsPerCluster]
    have hsectors := writeSectors_moves part
      (part.statics.fs.clusterBeginLba + 8 * (cluster - 2)) buf 8 0 (by omega)
    simp only [Nat.add_zero, Nat.zero_add] at hsectors
    exact hsectors
  refine ⟨_, hwrite, ?_⟩
  have hwhole : v.setData cluster buf = v.setData cluster fun k =>
      if k < 512 * 8 then buf k else v.data cluster k :=
    v.setData_congr cluster fun k hk => (if_pos hk).symm
  rw [hwhole]
  exact hpart.putCluster buf hc le_rfl

/-! ## Links -/

section Links

variable {fs : Fs} {cluster : Nat}

theorem Fs.Layout.fatSector_eq (h : fs.Layout)
    (hc : cluster < fs.totalClusters + 2) :
    fs.fatSector cluster = fs.fatBeginLba + cluster / 128 := by
  have hlt := h.lt hc
  have hend := h.fatEnd
  have hclusters := h.clustersEnd
  have hlarge := h.fatLarge
  simp only [Fs.fatSector, u32]
  omega

end Links

theorem entryOffset_eq (cluster : Nat) : entryOffset cluster = 4 * (cluster % 128) := by
  simp only [entryOffset, u32]
  omega

theorem getNextCluster_executes (v : Volume) {cluster : Nat}
    (hc : cluster < v.fs.totalClusters + 2) :
    Executes v (getNextCluster cluster) (v.link cluster) v := by
  refine executes_of_still fun part hpart => ?_
  have hlayout := hpart.layout
  rw [← hpart.fs] at hc
  have hend := hlayout.fatEnd
  have hclusters := hlayout.clustersEnd
  have hlarge := hlayout.fatLarge
  rw [← hpart.link cluster hc]
  refine Runs.bind (getFs_moves part) ?_
  rw [hlayout.fatSector_eq hc]
  refine Runs.bind (readSector_moves part (by omega)) ?_
  rw [entryOffset_eq]
  exact Runs.pure _ _

theorem linkedSector_word (sector : Sector) {cluster other : Nat} (next : Nat)
    (hother : other < 128) :
    readLe (linkedSector sector cluster next).toBuf (4 * other) 4 =
      if other = cluster % 128 then
        readLe sector.toBuf (4 * other) 4 / 268435456 * 268435456 + next % 268435456
      else readLe sector.toBuf (4 * other) 4 := by
  have hstored : ∀ k < 512, (linkedSector sector cluster next).toBuf k =
      storeLe sector.toBuf (entryOffset cluster) 4
        (readLe sector.toBuf (entryOffset cluster) 4 / 268435456 * 268435456 +
          next % 268435456) k :=
    fun k hk => Sector.toBuf_ofBuf _ hk
  have hread : readLe (linkedSector sector cluster next).toBuf (4 * other) 4 =
      readLe (storeLe sector.toBuf (entryOffset cluster) 4
        (readLe sector.toBuf (entryOffset cluster) 4 / 268435456 * 268435456 +
          next % 268435456)) (4 * other) 4 :=
    readLe_congr fun i hi => hstored _ (by omega)
  have hword := readLe_lt sector.toBuf (4 * other) 4
  rw [hread, entryOffset_eq]
  split
  · next hsame =>
      rw [← hsame, readLe_storeLe_same]
      omega
  · next hne =>
      rw [readLe_storeLe_disjoint _ (by omega)]

theorem linkedSector_link (sector : Sector) {cluster other : Nat} (next : Nat)
    (hother : other < 128) :
    readLe (linkedSector sector cluster next).toBuf (4 * other) 4 % 268435456 =
      if other = cluster % 128 then next % 268435456
      else readLe sector.toBuf (4 * other) 4 % 268435456 := by
  rw [linkedSector_word sector next hother]
  split
  · omega
  · rfl

/-- The first FAT changes in one entry; what else is written is its backup. -/
theorem Partition.Holds.setLink {part : Partition} {v : Volume}
    (hpart : part.Holds v) {cluster : Nat} (next : Nat)
    (hc : cluster < part.statics.fs.totalClusters + 2) :
    (part.put (part.statics.fs.fatBeginLba + cluster / 128)
      (linkedSector (part.sectors
        (part.statics.fs.fatBeginLba + cluster / 128)) cluster next)).Holds
      (v.setLink cluster next) := by
  have hlayout := hpart.layout
  have hend := hlayout.fatEnd
  have hlarge := hlayout.fatLarge
  constructor
  case layout => exact hlayout
  case fs => exact hpart.fs
  case freeClusters => exact hpart.freeClusters
  case info =>
    intro hinfo
    change 2 ≤ part.statics.fs.fatBeginLba at hinfo
    simp only [Partition.put]
    rw [Function.update_of_ne (by omega)]
    exact hpart.info hinfo
  case infoOutside => exact hpart.infoOutside
  case link =>
    intro c hc'
    change c < part.statics.fs.totalClusters + 2 at hc'
    simp only [Partition.link, Partition.put, Volume.setLink]
    have hold := hpart.link c hc'
    simp only [Partition.link] at hold
    by_cases hsector : c / 128 = cluster / 128
    · rw [hsector, Function.update_self, linkedSector_link _ _ (by omega)]
      rw [hsector] at hold
      by_cases hsame : c = cluster
      · rw [if_pos (by rw [hsame]), hsame, Function.update_self]
      · rw [if_neg (by omega), Function.update_of_ne hsame, hold]
    · have hsame : c ≠ cluster := fun heq => hsector (by rw [heq])
      rw [Function.update_of_ne (by omega), Function.update_of_ne hsame, hold]
  case data =>
    intro c hc'
    rw [Volume.setLink_data, ← hpart.data c hc']
    funext k
    simp only [Partition.data, Partition.put]
    split
    · rw [Function.update_of_ne (by omega)]
    · rfl
  case linkOutside =>
    intro c hout
    change part.statics.fs.totalClusters + 2 ≤ c at hout
    simp only [Volume.setLink]
    rw [Function.update_of_ne (by omega)]
    exact hpart.linkOutside c hout
  case dataOutside => exact hpart.dataOutside

/-- A sector that is neither FSInfo nor holds anything of files. -/
theorem Partition.Holds.putApart {part : Partition} {v : Volume}
    (hpart : part.Holds v) (lba : Nat) (sector : Sector)
    (hone : 2 ≤ part.statics.fs.fatBeginLba → lba ≠ 1)
    (hapart : part.statics.fs.Apart lba) : (part.put lba sector).Holds v := by
  have hlarge := hpart.layout.fatLarge
  obtain ⟨hnotFat, hnotData⟩ := hapart
  constructor
  case layout => exact hpart.layout
  case fs => exact hpart.fs
  case freeClusters => exact hpart.freeClusters
  case info =>
    intro hinfo
    simp only [Partition.put]
    rw [Function.update_of_ne (Ne.symm (hone hinfo))]
    exact hpart.info hinfo
  case infoOutside => exact hpart.infoOutside
  case link =>
    intro c hc
    change c < part.statics.fs.totalClusters + 2 at hc
    rw [← hpart.link c hc]
    simp only [Partition.link, Partition.put]
    rw [Function.update_of_ne (by omega)]
  case data =>
    intro c hc
    rw [← hpart.data c hc]
    obtain ⟨hlow, hhigh⟩ := hc
    change c < part.statics.fs.totalClusters + 2 at hhigh
    funext k
    simp only [Partition.data, Partition.put]
    split
    · rw [Function.update_of_ne (by omega)]
    · rfl
  case linkOutside => exact hpart.linkOutside
  case dataOutside => exact hpart.dataOutside

theorem Partition.Holds.putInfo {part : Partition} {v : Volume}
    (hpart : part.Holds v) (hfat : 2 ≤ part.statics.fs.fatBeginLba) (info : Sector) :
    (part.put 1 info).Holds (v.setInfo info) := by
  have hlayout := hpart.layout
  have hend := hlayout.fatEnd
  have hlarge := hlayout.fatLarge
  constructor
  case layout => exact hlayout
  case fs => exact hpart.fs
  case freeClusters => exact hpart.freeClusters
  case info =>
    intro _
    simp [Partition.put, Volume.setInfo]
  case infoOutside => exact fun hinfo => absurd hfat (not_le.mpr hinfo)
  case link =>
    intro c hc
    rw [Volume.setInfo_link, ← hpart.link c hc]
    simp only [Partition.link, Partition.put]
    rw [Function.update_of_ne (by omega)]
  case data =>
    intro c hc
    rw [Volume.setInfo_data, ← hpart.data c hc]
    funext k
    simp only [Partition.data, Partition.put]
    split
    · rw [Function.update_of_ne (by omega)]
    · rfl
  case linkOutside => exact hpart.linkOutside
  case dataOutside => exact hpart.dataOutside

theorem setNextCluster_executes (v : Volume) {cluster : Nat} (next : Nat)
    (hc : cluster < v.fs.totalClusters + 2) :
    Executes v (setNextCluster cluster next) 0 (v.setLink cluster next) := by
  refine executes_of_moves fun part hpart => ?_
  have hlayout := hpart.layout
  rw [← hpart.fs] at hc
  have hend := hlayout.fatEnd
  have hclusters := hlayout.clustersEnd
  have hlarge := hlayout.fatLarge
  have hlinked := hpart.setLink next hc
  by_cases hcopies : part.statics.fs.numFats > 1
  · have hbackup := hlayout.backupEnd hcopies
    have hbackupLba : u32 (part.statics.fs.fatBeginLba + cluster / 128 +
        part.statics.fs.fatSize) =
        part.statics.fs.fatBeginLba + cluster / 128 + part.statics.fs.fatSize :=
      u32_of_lt (by omega)
    have hholds := hlinked.putApart
      (part.statics.fs.fatBeginLba + cluster / 128 + part.statics.fs.fatSize)
      (linkedSector (part.sectors (part.statics.fs.fatBeginLba + cluster / 128))
        cluster next)
      (fun hfat => by change 2 ≤ part.statics.fs.fatBeginLba at hfat; omega)
      ⟨.inr (by simp [Partition.put]), .inl (by simp only [Partition.put]; omega)⟩
    refine ⟨_, ?_, hholds⟩
    refine Runs.bind (getFs_moves part) ?_
    rw [hlayout.fatSector_eq hc, hbackupLba]
    refine Runs.bind (readSector_moves part (by omega)) ?_
    refine Runs.bind (writeSector_moves _ _ (by omega)) (Runs.if_neg (by decide) ?_)
    refine Runs.if_pos hcopies ?_
    exact Runs.bind (writeSector_moves _ _ (by omega))
      (Runs.if_neg (by decide) (Runs.pure _ _))
  · refine ⟨_, ?_, hlinked⟩
    refine Runs.bind (getFs_moves part) ?_
    rw [hlayout.fatSector_eq hc]
    refine Runs.bind (readSector_moves part (by omega)) ?_
    refine Runs.bind (writeSector_moves _ _ (by omega)) (Runs.if_neg (by decide) ?_)
    exact Runs.if_neg hcopies (Runs.pure _ _)

/-! ## The free count and FSInfo -/

theorem modifyCount_executes (v : Volume) (f : Nat → Nat) :
    Executes v (modifyFat32 fun st =>
      { st with freeClusters := f st.freeClusters }) ()
      (v.setCount (f v.freeClusters)) := by
  refine executes_of_moves fun part hpart =>
    ⟨_, modifyFat32_moves part rfl, ?_⟩
  refine ⟨hpart.layout, hpart.fs, ?_, hpart.info, hpart.infoOutside, hpart.link,
    hpart.data, hpart.linkOutside, hpart.dataOutside⟩
  rw [Volume.setCount, ← hpart.freeClusters]
  rfl

/-- FSInfo after `fat32_update_fsinfo`; a foreign sector stays as it is. -/
def updatedInfo (info : Sector) (freeCount nextFree : Nat) : Sector :=
  if signatureAt info then infoSector info freeCount nextFree else info

theorem updateFsinfo_executes (v : Volume) (freeCount nextFree : Nat)
    (hfat : 2 ≤ v.fs.fatBeginLba) (hcopy : ¬ signatureAt v.info ∨ v.fs.Apart 7) :
    ∃ result, Executes v (updateFsinfo freeCount nextFree) result
      (v.setInfo (updatedInfo v.info freeCount nextFree)) := by
  by_cases hsignature : signatureAt v.info
  · have hcopy := hcopy.resolve_left (not_not.mpr hsignature)
    refine ⟨0, executes_of_moves fun part hpart => ?_⟩
    rw [← hpart.fs] at hfat hcopy
    have hmoves : Moves part (updateFsinfo freeCount nextFree) 0
        ((part.put 1 (infoSector v.info freeCount nextFree)).put 7
          (infoSector v.info freeCount nextFree)) := by
      refine Runs.bind (readSector_moves part (by omega)) ?_
      rw [hpart.info hfat]
      refine Runs.if_neg (not_not.mpr hsignature) ?_
      refine Runs.bind (writeSector_moves _ _ (by omega))
        (Runs.if_neg (by decide) ?_)
      exact Runs.bind (writeSector_moves _ _ (by omega)) (Runs.pure _ _)
    refine ⟨_, hmoves, ?_⟩
    rw [updatedInfo, if_pos hsignature]
    exact (hpart.putInfo hfat _).putApart 7 _ (fun _ => by decide) hcopy
  · have hsame : v.setInfo (updatedInfo v.info freeCount nextFree) = v := by
      simp [Volume.setInfo, updatedInfo, hsignature]
    rw [hsame]
    refine ⟨-1, executes_of_still fun part hpart => ?_⟩
    rw [← hpart.fs] at hfat
    refine Runs.bind (readSector_moves part (by omega)) ?_
    rw [hpart.info hfat]
    exact Runs.if_pos hsignature (Runs.pure _ _)

/--
What `fat32_update_fsinfo` may be called on.  It reads sector 1 and writes
sectors 1 and 7 whatever number of reserved sectors the boot sector gives.
-/
def Volume.InfoApart (v : Volume) : Prop :=
  v.freeClusters = unknownCount ∨
    2 ≤ v.fs.fatBeginLba ∧ (¬ signatureAt v.info ∨ v.fs.Apart 7)

theorem Volume.InfoApart.of_eq {v v' : Volume} (h : v.InfoApart)
    (hfs : v'.fs = v.fs) (hinfo : v'.info = v.info)
    (hcount : v.freeClusters = unknownCount → v'.freeClusters = unknownCount) :
    v'.InfoApart := by
  rw [Volume.InfoApart, hfs, hinfo]
  exact h.imp_left hcount

theorem Volume.InfoApart.setData {v : Volume} (h : v.InfoApart) (cluster : Nat)
    (buf : Buf) : (v.setData cluster buf).InfoApart :=
  h.of_eq rfl rfl id

theorem Volume.infoApart_of_reserved {v : Volume} (hlayout : v.fs.Layout)
    (h : 8 ≤ v.fs.fatBeginLba) : v.InfoApart := by
  have hfat := hlayout.fatEnd
  exact .inr ⟨by omega, .inr ⟨by omega, by omega⟩⟩

/-- The FSInfo update at the end of every change. -/
def Volume.finish (v : Volume) (nextFree : Nat) : Volume :=
  if v.freeClusters ≠ unknownCount then
    v.setInfo (updatedInfo v.info v.freeClusters nextFree)
  else v

@[simp] theorem Volume.finish_fs (v : Volume) (nextFree : Nat) :
    (v.finish nextFree).fs = v.fs := by
  unfold Volume.finish
  split <;> rfl

@[simp] theorem Volume.finish_link (v : Volume) (nextFree : Nat) :
    (v.finish nextFree).link = v.link := by
  unfold Volume.finish
  split <;> rfl

@[simp] theorem Volume.finish_data (v : Volume) (nextFree : Nat) :
    (v.finish nextFree).data = v.data := by
  unfold Volume.finish
  split <;> rfl

theorem updateFsinfoIfKnown_executes {v : Volume} (hinfo : v.InfoApart)
    (nextFree : Nat) : Executes v (updateFsinfoIfKnown nextFree) () (v.finish nextFree) := by
  have hget : ∀ {a : Unit} {v' : Volume} {next : Statics → Program System Unit},
      (∀ st : Statics, st.freeClusters = v.freeClusters →
        Executes v (next st) a v') → Executes v (getFat32 >>= next) a v' := by
    rintro a v' next h s ⟨part, hs, hpart⟩
    have hcount : s.fat32.freeClusters = v.freeClusters := by
      rw [hs.statics, hpart.freeClusters]
    obtain ⟨s', hrun, hs'⟩ := h s.fat32 hcount s ⟨part, hs, hpart⟩
    exact ⟨s', hrun, hs'⟩
  refine hget fun st hst => ?_
  by_cases hknown : v.freeClusters ≠ unknownCount
  · obtain ⟨hfat, hcopy⟩ := hinfo.resolve_left hknown
    obtain ⟨result, hupdate⟩ :=
      updateFsinfo_executes v v.freeClusters nextFree hfat hcopy
    rw [Volume.finish, if_pos hknown, hst]
    exact Runs.if_pos hknown (Runs.bind hupdate (Runs.pure _ _))
  · rw [Volume.finish, if_neg hknown, hst]
    exact Runs.if_neg hknown (Runs.pure _ _)

end EntropyOS.Fat32
