import EntropyOS.Libexfat.Flushing

/-!
# What unmounting does to the boot region

`finalize_super_block` changes the two fields that the checksum skips.  The
check of the next mount accepts what it leaves.
-/

namespace EntropyOS.Libexfat

open EntropyOS.Foundation

/-- Only the fields that change while the volume is in use are different. -/
def SuperBlock.SameVolume (sb sb' : SuperBlock) : Prop :=
  ∀ k, ¬ VbrSkipped k → sb'.bytes k = sb.bytes k

namespace SuperBlock.SameVolume

variable {sb sb' sb'' : SuperBlock}

theorem refl (sb : SuperBlock) : sb.SameVolume sb := fun _ _ => rfl

theorem trans (h : sb.SameVolume sb') (h' : sb'.SameVolume sb'') : sb.SameVolume sb'' :=
  fun k hk => (h' k hk).trans (h k hk)

theorem withState (sb : SuperBlock) (state : Nat) : sb.SameVolume (sb.withState state) :=
  fun _ hk => if_neg (by omega)

theorem withPercent (sb : SuperBlock) (percent : Nat) :
    sb.SameVolume (sb.withPercent percent) :=
  fun _ hk => if_neg (by omega)

theorem field (h : sb.SameVolume sb') {offset width : Nat}
    (hkept : ∀ i < width, ¬ VbrSkipped (offset + i)) :
    readLe sb'.bytes offset width = readLe sb.bytes offset width :=
  readLe_congr fun i hi => h _ (hkept i hi)

theorem sectorBits_eq (h : sb.SameVolume sb') : sb'.sectorBits = sb.sectorBits :=
  h.field (by omega)

theorem spcBits_eq (h : sb.SameVolume sb') : sb'.spcBits = sb.spcBits :=
  h.field (by omega)

theorem clusterCount_eq (h : sb.SameVolume sb') : sb'.clusterCount = sb.clusterCount :=
  h.field (by omega)

theorem sectorSize_eq (h : sb.SameVolume sb') : sb'.sectorSize = sb.sectorSize :=
  congrArg (2 ^ ·) h.sectorBits_eq

theorem clusterSize_eq (h : sb.SameVolume sb') : sb'.clusterSize = sb.clusterSize := by
  rw [SuperBlock.clusterSize, SuperBlock.clusterSize, h.sectorBits_eq, h.spcBits_eq]

theorem fatStart_eq (h : sb.SameVolume sb') : sb'.fatStart = sb.fatStart := by
  have hfield : sb'.fatSectorStart = sb.fatSectorStart := h.field (by omega)
  rw [SuperBlock.fatStart, SuperBlock.fatStart, hfield, h.sectorSize_eq]

theorem heapStart_eq (h : sb.SameVolume sb') : sb'.heapStart = sb.heapStart := by
  have hfield : sb'.clusterSectorStart = sb.clusterSectorStart := h.field (by omega)
  rw [SuperBlock.heapStart, SuperBlock.heapStart, hfield, h.sectorSize_eq]

theorem clusterOffset_eq (h : sb.SameVolume sb') : sb'.clusterOffset = sb.clusterOffset := by
  funext c
  rw [SuperBlock.clusterOffset, SuperBlock.clusterOffset, h.heapStart_eq, h.clusterSize_eq]

theorem valid_eq (h : sb.SameVolume sb') : sb'.Valid = sb.Valid := by
  funext c
  rw [SuperBlock.Valid, SuperBlock.Valid, h.clusterCount_eq]

theorem sane (h : sb.SameVolume sb') (hsane : sb.Sane) : sb'.Sane := by
  obtain ⟨hbits, hcount, hend⟩ := hsane
  constructor
  · rwa [h.sectorBits_eq, h.spcBits_eq]
  · rwa [h.clusterCount_eq]
  · rwa [h.fatStart_eq, h.heapStart_eq, h.clusterCount_eq]

end SuperBlock.SameVolume

/-! ## Fields of the super block -/

namespace SuperBlock

variable (sb : SuperBlock) (state percent : Nat)

theorem withState_volumeState : (sb.withState state).volumeState = state % 2 ^ 16 :=
  readLe_storeLe_same ..

@[simp] theorem withState_allocatedPercent :
    (sb.withState state).allocatedPercent = sb.allocatedPercent :=
  readLe_storeLe_disjoint _ (by omega)

theorem withPercent_allocatedPercent :
    (sb.withPercent percent).allocatedPercent = percent % 2 ^ 8 :=
  readLe_storeLe_same ..

@[simp] theorem withPercent_volumeState :
    (sb.withPercent percent).volumeState = sb.volumeState :=
  readLe_storeLe_disjoint _ (by omega)

theorem volumeState_lt : sb.volumeState < 2 ^ 16 := readLe_lt ..

/-- The super block with the percentage of the clusters that are in use. -/
def noted (free : Nat) : SuperBlock :=
  if sb.allocatedPercent ≠ 0xff then sb.withPercent (percentUsed sb.clusterCount free)
  else sb

def soiled : SuperBlock := sb.withState (sb.volumeState ||| stateMounted)

/-- The super block of a volume that is not in use any more. -/
def finalized (free : Nat) : SuperBlock :=
  (sb.withState (sb.volumeState &&& (0xffffffff - stateMounted))).noted free

theorem noted_sameVolume (free : Nat) : sb.SameVolume (sb.noted free) := by
  rw [noted]
  split
  · exact .withPercent _ _
  · exact .refl _

theorem soiled_sameVolume : sb.SameVolume sb.soiled := .withState _ _

theorem finalized_sameVolume (free : Nat) : sb.SameVolume (sb.finalized free) :=
  (SameVolume.withState _ _).trans (noted_sameVolume _ _)

theorem percentUsed_le {total free : Nat} (hfree : free ≤ total) (htotal : 0 < total)
    (hsmall : total < 4294967296) : percentUsed total free ≤ 100 := by
  have hused : u32 (total + 4294967296 - free) ≤ total := by
    simp only [u32]
    omega
  have hproduct : u32 (u32 (total + 4294967296 - free) * 100) ≤ total * 100 :=
    (Nat.mod_le _ _).trans (Nat.mul_le_mul_right _ hused)
  have hsum : u32 (u32 (u32 (total + 4294967296 - free) * 100) + total / 2) ≤
      total * 100 + total / 2 := (Nat.mod_le _ _).trans (Nat.add_le_add_right hproduct _)
  have hhalf : total / 2 < total := Nat.div_lt_self htotal (by omega)
  rw [percentUsed]
  refine Nat.le_of_lt_succ ((Nat.div_lt_iff_lt_mul htotal).mpr ?_)
  omega

theorem noted_allocatedPercent {free : Nat} (hfree : free ≤ sb.clusterCount)
    (hcount : 0 < sb.clusterCount) :
    (sb.noted free).allocatedPercent = if sb.allocatedPercent = 0xff then 0xff
      else percentUsed sb.clusterCount free := by
  rw [noted]
  by_cases hunused : sb.allocatedPercent = 0xff
  · simp [hunused]
  · have hle := percentUsed_le hfree hcount (readLe_lt ..)
    rw [if_pos hunused, if_neg hunused, withPercent_allocatedPercent]
    exact Nat.mod_eq_of_lt (by omega)

theorem finalized_allocatedPercent {free : Nat} (hfree : free ≤ sb.clusterCount)
    (hcount : 0 < sb.clusterCount) :
    (sb.finalized free).allocatedPercent = if sb.allocatedPercent = 0xff then 0xff
      else percentUsed sb.clusterCount free := by
  have hsame := (SameVolume.withState sb
    (sb.volumeState &&& (0xffffffff - stateMounted))).clusterCount_eq
  rw [finalized, noted_allocatedPercent _ (hsame ▸ hfree) (hsame ▸ hcount), hsame,
    withState_allocatedPercent]

theorem soiled_testBit (i : Nat) :
    sb.soiled.volumeState.testBit i = (sb.volumeState.testBit i || decide (i = 1)) := by
  have hlt := sb.volumeState_lt
  have hstate : sb.volumeState ||| stateMounted < 2 ^ 16 :=
    Nat.or_lt_two_pow hlt (by decide)
  rw [soiled, withState_volumeState, Nat.mod_eq_of_lt hstate, Nat.testBit_or]
  rw [show stateMounted = 2 ^ 1 from rfl, Nat.testBit_two_pow]
  simp [eq_comm]

theorem finalized_testBit (free i : Nat) :
    (sb.finalized free).volumeState.testBit i =
      (sb.volumeState.testBit i && !decide (i = 1)) := by
  have hnoted : (sb.finalized free).volumeState =
      (sb.withState (sb.volumeState &&& (0xffffffff - stateMounted))).volumeState := by
    rw [finalized, noted]
    split
    · exact withPercent_volumeState _ _
    · rfl
  have hlt : sb.volumeState &&& (0xffffffff - stateMounted) < 2 ^ 16 :=
    Nat.and_le_left.trans_lt sb.volumeState_lt
  rw [hnoted, withState_volumeState, Nat.mod_eq_of_lt hlt, Nat.testBit_and]
  by_cases hi : i < 16
  · have hmask : ∀ j < 16, (0xffffffff - stateMounted).testBit j = !decide (j = 1) := by decide
    rw [hmask i hi]
  · have hhigh : sb.volumeState.testBit i = false :=
      Nat.testBit_lt_two_pow (sb.volumeState_lt.trans_le (Nat.pow_le_pow_right (by omega)
        (by omega)))
    rw [hhigh, Bool.false_and, Bool.false_and]

end SuperBlock

/-! ## Another super block in memory -/

def VolumeOn.withSb {Dev : Type} (v : VolumeOn Dev) (sb : SuperBlock) : VolumeOn Dev :=
  { v with sb := sb }

/-- The view with another super block in memory and on the disk. -/
def VolumeOn.commit (v : View) (sb : SuperBlock) : View := (v.withSb sb).store 0 512 sb.bytes

section Files

variable {live reserved : Nat → Prop} {clusters : Nat → List Nat} {v : View}
  {sb : SuperBlock} {d : Store}

theorem VolumeOn.withSb_link (h : v.sb.SameVolume sb) : (v.withSb sb).link = v.link := by
  funext c
  rw [link, link, withSb, h.fatStart_eq]

theorem VolumeOn.withSb_free (h : v.sb.SameVolume sb) : (v.withSb sb).free = v.free := by
  rw [free, free, withSb, h.clusterCount_eq]

theorem VolumeOn.free_card_le (v : View) : v.free.card ≤ v.sb.clusterCount :=
  (Finset.card_filter_le _ _).trans (by simp)

theorem VolumeOn.withSb_content (h : v.sb.SameVolume sb) (cs : List Nat) :
    (v.withSb sb).content cs = v.content cs := by
  rw [content, content, withSb, h.clusterSize_eq, h.clusterOffset_eq]

theorem Mounted.withSb (hv : Mounted v) (h : v.sb.SameVolume sb) : Mounted (v.withSb sb) where
  sane := h.sane hv.sane
  size_eq := hv.size_eq.trans h.clusterCount_eq.symm
  chunkSize_eq := hv.chunkSize_eq.trans h.clusterCount_eq.symm
  zeroCluster_eq k hk := by
    refine hv.zeroCluster_eq k ?_
    rwa [VolumeOn.withSb, h.clusterSize_eq] at hk

theorem File.withSb {n : Nat} {cs : List Nat} (hfile : File v n cs) (h : v.sb.SameVolume sb) :
    File (v.withSb sb) n cs := by
  obtain ⟨⟨hvalid, hnodup, hlinks, hstart, hpointer⟩, hended, hlength, hle⟩ := hfile
  have hlink := VolumeOn.withSb_link h
  refine ⟨⟨?_, hnodup, ?_, hstart, hpointer⟩, ?_, ?_, hle⟩
  · intro c hc
    rw [VolumeOn.withSb, h.valid_eq]
    exact hvalid c hc
  · refine hlinks.imp fun a b heq => ?_
    rw [VolumeOn.next, hlink]
    exact heq
  · intro hscattered c hc
    rw [hlink]
    exact hended hscattered c hc
  · rw [hlength, VolumeOn.withSb, SuperBlock.clustersFor, SuperBlock.clustersFor,
      h.clusterSize_eq]

theorem Represents.withSb (hrep : Represents live reserved clusters v d)
    (h : v.sb.SameVolume sb) : Represents live reserved clusters (v.withSb sb) d := by
  have hfree := VolumeOn.withSb_free h
  refine ⟨⟨hrep.sound.mounted.withSb h, fun n hn => (hrep.sound.file n hn).withSb h,
    hrep.sound.inUse, ?_⟩, ?_, ?_, fun n hn => ?_⟩
  · rw [hfree, VolumeOn.withSb, h.valid_eq]
    exact hrep.sound.owned
  · rw [hrep.clusterSize_eq, VolumeOn.withSb, h.clusterSize_eq]
  · rw [hfree]
    exact hrep.free_eq
  · have hbytes : (v.withSb sb).bytes n (clusters n) = v.bytes n (clusters n) := by
      funext k
      rw [VolumeOn.bytes, VolumeOn.bytes, VolumeOn.withSb_content h]
      rfl
    rw [hrep.text_eq n hn, VolumeOn.text, VolumeOn.text, hbytes]
    rfl

/-- A volume is the same store of files while its super block is committed. -/
theorem Represents.commit (hrep : Represents live reserved clusters v d)
    (h : v.sb.SameVolume sb) (hbehind : 512 ≤ v.sb.fatStart) :
    Represents live reserved clusters (v.commit sb) d := by
  have hv := (hrep.withSb h).sound.mounted
  refine (hrep.withSb h).of_agrees ⟨hv.sane, hv.size_eq, hv.chunkSize_eq, hv.zeroCluster_eq⟩
    rfl (fun _ _ => rfl) rfl fun k c hc _ hk => if_neg ?_
  have hfat : (v.withSb sb).sb.fatStart = v.sb.fatStart := h.fatStart_eq
  have hheap := hv.sane.link_le_heap hc
  rcases hk with hlink | hin
  · have hlow := hlink.1
    omega
  · have hlow := heapStart_le_of_inCluster hin
    omega

theorem VolumeOn.BitmapIn.commit (hin : v.BitmapIn reserved) (h : v.sb.SameVolume sb) :
    (v.commit sb).BitmapIn reserved := by
  obtain ⟨hstart, hinside⟩ := hin
  refine ⟨?_, fun k hk => ?_⟩
  · show sb.Valid v.cmap.startCluster
    rwa [h.valid_eq]
  · change k < bmapSize sb.clusterCount at hk
    rw [h.clusterCount_eq] at hk
    obtain ⟨c, hc, hreserved, hck⟩ := hinside k hk
    refine ⟨c, ?_, hreserved, ?_⟩
    · show sb.Valid c
      rwa [h.valid_eq]
    · show sb.InCluster c (sb.clusterOffset v.cmap.startCluster + k)
      rwa [SuperBlock.InCluster, h.clusterOffset_eq, h.clusterSize_eq]

end Files

section Runs

variable {v : View}

theorem modifySb_runs (f : SuperBlock → SuperBlock) :
    Runs Shows v (modifySb f) () (v.withSb (f v.sb)) :=
  modify_runs (fun _ => rfl) rfl

theorem notePercent_runs (hv : Mounted v) (hcount : v.sb.clusterCount ≠ 0) :
    Runs Shows v notePercent () (v.withSb (v.sb.noted v.free.card)) := by
  refine get_runs fun d => ?_
  by_cases hpercent : v.sb.allocatedPercent ≠ 0xff
  · have heq : v.sb.noted v.free.card = _ := if_pos hpercent
    rw [heq]
    exact Runs.if_pos hpercent ((countFreeClusters_runs hv).bind
      (get_runs fun d => (unlessBug_runs hcount).bind (modifySb_runs _)))
  · have heq : v.sb.noted v.free.card = v.sb := if_neg hpercent
    rw [heq]
    exact Runs.if_neg hpercent (Runs.pure v _)

theorem commitSuperBlock_runs : Runs Shows v commitSuperBlock 0 (v.store 0 512 v.sb.bytes) :=
  get_runs fun _ => (pwrite_runs _ (by omega)).bind (Runs.if_neg (by omega) (Runs.pure _ _))

theorem soilSuperBlock_runs (hro : v.ro = false) :
    Runs Shows v soilSuperBlock 0 (v.commit v.sb.soiled) :=
  get_runs fun _ => Runs.if_neg (by simp [hro])
    ((modifySb_runs fun sb => sb.withState (sb.volumeState ||| stateMounted)).bind
      commitSuperBlock_runs)

theorem finalizeSuperBlock_runs (hv : Mounted v) (hro : v.ro = false)
    (hcount : v.sb.clusterCount ≠ 0) :
    Runs Shows v finalizeSuperBlock () (v.commit (v.sb.finalized v.free.card)) := by
  have hstate := SuperBlock.SameVolume.withState v.sb
    (v.sb.volumeState &&& (0xffffffff - stateMounted))
  have hclean := modifySb_runs (v := v) fun sb =>
    sb.withState (sb.volumeState &&& (0xffffffff - stateMounted))
  have hnote := notePercent_runs (hv.withSb hstate)
    (by rwa [VolumeOn.withSb, hstate.clusterCount_eq])
  rw [VolumeOn.withSb_free hstate] at hnote
  refine get_runs fun d => Runs.if_neg (by simp [hro]) (hclean.bind (hnote.bind ?_))
  exact commitSuperBlock_runs.bind (Runs.pure _ _)

end Runs

/-! ## The boot region after a session -/

/-- The super block in memory is the one on the disk, as a mount has read it. -/
def VolumeOn.Anchored (v : View) : Prop := ∀ k < 512, v.dev k = v.sb.bytes k

theorem VolumeOn.commit_anchored (v : View) (sb : SuperBlock) : (v.commit sb).Anchored := by
  intro k hk
  simp [commit, withSb, Buf.overlay, hk]

/-- Only skipped bytes of the boot region are different. -/
theorem VolumeOn.Verified.commit {v : View} {sb : SuperBlock} (hverified : v.Verified)
    (hanchored : v.Anchored) (h : v.sb.SameVolume sb) (hlarge : 512 ≤ v.sb.sectorSize) :
    (v.commit sb).Verified := by
  refine hverified.of_agrees h.sectorSize_eq (by omega) fun k hk hkept => ?_
  by_cases hfirst : k < 512
  · rw [(v.commit_anchored sb) k hfirst, hanchored k hfirst]
    exact h k hkept
  · exact if_neg (by omega)

/-- The same super block and the same boot region. -/
structure VolumeOn.SameBoot (v v' : View) : Prop where
  sb_eq : v'.sb = v.sb
  ro_eq : v'.ro = v.ro
  repair_eq : v'.repair = v.repair
  dev_eq : ∀ k < v.sb.sectorSize * 12, v'.dev k = v.dev k

namespace VolumeOn.SameBoot

variable {v v' v'' : View}

theorem trans (h : v.SameBoot v') (h' : v'.SameBoot v'') : v.SameBoot v'' where
  sb_eq := h'.sb_eq.trans h.sb_eq
  ro_eq := h'.ro_eq.trans h.ro_eq
  repair_eq := h'.repair_eq.trans h.repair_eq
  dev_eq k hk := (h'.dev_eq k (by rwa [h.sb_eq])).trans (h.dev_eq k hk)

theorem anchored (h : v.SameBoot v') (hlarge : 512 ≤ v.sb.sectorSize)
    (hanchored : v.Anchored) : v'.Anchored := by
  intro k hk
  rw [h.dev_eq k (by omega), h.sb_eq]
  exact hanchored k hk

theorem verified (h : v.SameBoot v') (hlarge : 512 ≤ v.sb.sectorSize)
    (hverified : v.Verified) : v'.Verified :=
  hverified.of_agrees (by rw [h.sb_eq]) (by omega) fun k hk _ => h.dev_eq k hk

end VolumeOn.SameBoot

section Unmounting

variable {live reserved : Nat → Prop} {clusters : Nat → List Nat} {ef : Volume}
  {v v' : View} {d : Store}

theorem Untouched.sameBoot (h : Untouched live reserved v v') (hsane : v.sb.Sane)
    (hbehind : 12 * v.sb.sectorSize ≤ v.sb.fatStart) : v.SameBoot v' where
  sb_eq := h.settings.sb_eq
  ro_eq := h.settings.ro_eq
  repair_eq := h.settings.repair_eq
  dev_eq k hk := by
    refine h.dev k fun c hc _ => ⟨fun hlink => ?_, fun hin => ?_⟩
    · have hlow := hlink.1
      omega
    · have hlow := heapStart_le_of_inCluster hin
      have hfat := hsane.link_le_heap hc
      omega

theorem VolumeOn.flushed_sameBoot (hv : Mounted v) (hstart : v.sb.Valid v.cmap.startCluster)
    (hbehind : 12 * v.sb.sectorSize ≤ v.sb.fatStart) : v.SameBoot v.flushed where
  sb_eq := v.flushed_sb
  ro_eq := v.flushed_ro
  repair_eq := v.flushed_repair
  dev_eq k hk := by
    refine VolumeOn.flushed_dev hv fun j _ => ?_
    have hfat := hv.sane.link_le_heap hstart
    simp only [SuperBlock.clusterOffset]
    omega

structure VolumeOn.MarkedFrom (v v' : View) : Prop where
  anchored : v'.Anchored
  state : ∀ i, v'.sb.volumeState.testBit i = (v.sb.volumeState.testBit i || decide (i = 1))
  percent : v'.sb.allocatedPercent = v.sb.allocatedPercent

/--
The mark is taken back, in memory and on the disk, and the percentage is that of the
clusters in use, unless it is one that is not kept.
-/
structure VolumeOn.UnmarkedFrom (v v' : View) : Prop where
  anchored : v'.Anchored
  state : ∀ i, v'.sb.volumeState.testBit i = (v.sb.volumeState.testBit i && !decide (i = 1))
  percent : v'.sb.allocatedPercent = if v.sb.allocatedPercent = 0xff then 0xff
    else percentUsed v.sb.clusterCount v'.free.card

end Unmounting

/-! ## A small volume with a boot region -/

/-- Eight clusters of one sector, behind 24 sectors and a FAT of one sector. -/
def sealedSuperBlock : SuperBlock :=
  ⟨fun k => match k with
    | 0x50 => 24
    | 0x58 => 25
    | 0x5C => 8
    | 0x6C => 9
    | _ => 0⟩

/-- The super block on a disk, with its checksum. -/
def sealedDisk : Buf := fun k =>
  if 512 * 11 ≤ k ∧ k < 512 * 12 then
    byteOf (vbrChecksum sealedSuperBlock.bytes 512).toNat (k % 4)
  else
    sealedSuperBlock.bytes k

def sealedView : View := { mappedView with dev := sealedDisk, sb := sealedSuperBlock }

def sealedVolume : Volume := sealedView.on (smallVolumeOn sealedDisk).dev

theorem sealedVolume_shows : Shows sealedVolume sealedView := by
  obtain ⟨dev, hdev, heq⟩ := smallVolumeOn_shows sealedDisk
  exact ⟨(smallVolumeOn sealedDisk).dev, heq ▸ hdev, rfl⟩

theorem sealedView_verified : sealedView.Verified := by
  have hsize : sealedView.sb.sectorSize = 512 := by decide
  have hsum : vbrChecksum sealedView.dev 512 = vbrChecksum sealedSuperBlock.bytes 512 :=
    vbrChecksum_congr (by decide) fun k hk => by
      have hlt := (mem_vbrSummed.mp hk).1
      exact if_neg (by omega)
  intro i hi
  rw [hsize] at hi ⊢
  rw [hsum, readLe_of_bytes (n := (vbrChecksum sealedSuperBlock.bytes 512).toNat)]
  · exact Nat.mod_eq_of_lt (vbrChecksum sealedSuperBlock.bytes 512).toNat_lt
  · intro j hj
    have hin : 512 * 11 ≤ 512 * 11 + 4 * i + j ∧ 512 * 11 + 4 * i + j < 512 * 12 := by omega
    have hmod : (512 * 11 + 4 * i + j) % 4 = j := by omega
    exact (if_pos hin).trans (by rw [hmod])

theorem sealedView_represents (live : Nat → Prop) :
    Represents live (· = 2) (fun _ => []) sealedView (smallStore sealedView.free.card) := by
  refine empty_represents live _ ⟨⟨by decide, by decide, by decide⟩, by decide, by decide,
    fun _ _ => rfl⟩ (by decide) (fun _ _ => ⟨0, rfl⟩) fun c => ?_
  have hfree : sealedView.free = mappedView.free := by decide
  rw [hfree, mappedView_free]
  have hcount : sealedView.sb.clusterCount = 8 := by decide
  simp [SuperBlock.Valid, hcount, firstDataCluster]
  omega

theorem sealedView_bitmapIn : sealedView.BitmapIn (· = 2) :=
  bitmapIn_first (by decide) (by decide) rfl

end EntropyOS.Libexfat
