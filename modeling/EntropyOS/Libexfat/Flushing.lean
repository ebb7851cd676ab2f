import EntropyOS.Libexfat.BootChecks
import EntropyOS.Libexfat.Guarantees

/-!
# The bitmap on the disk

`exfat_flush` writes the bitmap to its clusters, and `readdir` loads it from
there when a volume is mounted.  What lies between is a session on the files.
-/

namespace EntropyOS.Libexfat

open EntropyOS.Foundation
open EntropyOS.Exfat (heapSize roundUp)

/-! ## The source -/

def bmapSize (count : Nat) : Nat := (count + 64 - 1) / 64 * 64 / 8

def chunkBytes (chunk : Bitmap 64) : Buf := fun k => byteOf (chunk (k / 8)).toNat (k % 8)

def chunkOf (bytes : Buf) : Bitmap 64 := fun i => BitVec.ofNat 64 (readLe bytes (8 * i) 8)

def VolumeOn.withCmap {Dev : Type} (v : VolumeOn Dev) (f : ClusterMap → ClusterMap) :
    VolumeOn Dev :=
  { v with cmap := f v.cmap }

@[simp] theorem VolumeOn.withCmap_sb {Dev : Type} (v : VolumeOn Dev)
    (f : ClusterMap → ClusterMap) : (v.withCmap f).sb = v.sb := rfl

@[simp] theorem VolumeOn.withCmap_dev {Dev : Type} (v : VolumeOn Dev)
    (f : ClusterMap → ClusterMap) : (v.withCmap f).dev = v.dev := rfl

def modifyCmap (f : ClusterMap → ClusterMap) : Program Volume Unit :=
  modify fun ef => ef.withCmap f

def flush : Program Volume Int := do
  let cmap := (← get).cmap
  if cmap.dirty then
    let start ← c2o cmap.startCluster
    if (← pwrite (chunkBytes cmap.chunk) (bmapSize cmap.chunkSize) start) < 0 then
      exfatError "failed to write clusters bitmap"
      return -eio
    else
      modifyCmap fun cmap => { cmap with dirty := false }
      return 0
  else
    return 0

/-- `malloc`; the address counts from the start of the heap. -/
def malloc (size : Nat) : Program Volume (Option Nat) := do
  let size := roundUp (UInt64.ofNat size)
  let used := (← get).heapUsed
  if used + size > heapSize then
    exfatError "malloc failed: requested %lu/%lu bytes"
    return none
  modify fun ef => { ef with heapUsed := used + size }
  return some used.toNat

/-- The end of the case of `readdir` for the entry of the bitmap. -/
def loadChunk (start count : Nat) : Program Volume Int := do
  match ← malloc (bmapSize count) with
  | none =>
      exfatError "failed to allocate clusters bitmap chunk (%llu bytes)"
      return -enomem
  | some _ =>
      let (r, bytes) ← pread (fun _ => 0) (bmapSize count) (← c2o start)
      modifyCmap fun cmap => { cmap with chunk := chunkOf bytes }
      if r < 0 then
        exfatError "failed to read clusters bitmap (%llu bytes starting at cluster %#x)"
        return -eio
      return 0

/-- The case of `readdir` for the entry of the bitmap. -/
def loadBitmap (entry : Buf) : Program Volume Int := do
  let start := readLe entry 20 4
  let size := readLe entry 24 8
  modifyCmap fun cmap => { cmap with startCluster := start }
  let sb := (← get).sb
  if sb.ClusterInvalid start then
    exfatError "invalid cluster 0x%x in clusters bitmap"
    return -eio
  modifyCmap fun cmap => { cmap with size := sb.clusterCount }
  if size < u32 (sb.clusterCount + 8 - 1) / 8 then
    exfatError "invalid clusters bitmap size: %llu (expected at least %u)"
    return -eio
  modifyCmap fun cmap => { cmap with chunkSize := sb.clusterCount }
  loadChunk start sb.clusterCount

/-! ## Words and bytes -/

theorem bmapSize_le {count : Nat} (h : count ≤ 0xfffffff5) : bmapSize count ≤ 2 ^ 30 := by
  simp only [bmapSize]
  omega

/-- The bytes of the bitmap are those of the words that hold its bits. -/
theorem lt_bmapSize {count i j : Nat} (hi : i < count) (hj : j < 8) :
    8 * (i / 64) + j < bmapSize count := by
  simp only [bmapSize]
  omega

theorem chunkOf_eq {bytes : Buf} {chunk : Bitmap 64} {i : Nat}
    (h : ∀ j < 8, bytes (8 * i + j) = chunkBytes chunk (8 * i + j)) :
    chunkOf bytes i = chunk i := by
  have hword : readLe bytes (8 * i) 8 = (chunk i).toNat % 256 ^ 8 := by
    refine readLe_of_bytes fun j hj => ?_
    rw [h j hj, chunkBytes, show (8 * i + j) / 8 = i by omega, show (8 * i + j) % 8 = j by omega]
  rw [chunkOf, hword]
  exact BitVec.eq_of_toNat_eq (by simpa using (chunk i).isLt)

namespace VolumeOn

variable {v v' : View}

theorem free_of_words (hsb : v'.sb = v.sb)
    (h : ∀ i < v.sb.clusterCount, v'.cmap.chunk (i / 64) = v.cmap.chunk (i / 64)) :
    v'.free = v.free := by
  ext c
  simp only [mem_free, hsb]
  refine and_congr_right fun hc => ?_
  have hlt : c - firstDataCluster < v.sb.clusterCount := by
    have hhigh := hc.2
    have hlow := hc.1
    omega
  rw [Bitmap.bit, Bitmap.bit, h _ hlt]

def Synced (v : View) : Prop :=
  ∀ k < bmapSize v.sb.clusterCount,
    v.dev (v.sb.clusterOffset v.cmap.startCluster + k) = chunkBytes v.cmap.chunk k

/-- The bytes of the bitmap lie in clusters that are reserved. -/
structure BitmapIn (reserved : Nat → Prop) (v : View) : Prop where
  start : v.sb.Valid v.cmap.startCluster
  inside : ∀ k < bmapSize v.sb.clusterCount, ∃ c, v.sb.Valid c ∧ reserved c ∧
    v.sb.InCluster c (v.sb.clusterOffset v.cmap.startCluster + k)

def flushed (v : View) : View :=
  if v.cmap.dirty then
    { v.store (v.sb.clusterOffset v.cmap.startCluster) (bmapSize v.cmap.chunkSize)
        (chunkBytes v.cmap.chunk) with cmap := { v.cmap with dirty := false } }
  else
    v

end VolumeOn

section Runs

variable {v : View}

theorem modifyCmap_runs (f : ClusterMap → ClusterMap) :
    Runs Shows v (modifyCmap f) () (v.withCmap f) :=
  modify_runs (fun _ => rfl) rfl

theorem malloc_runs {size : Nat}
    (h : ¬ v.heapUsed + roundUp (UInt64.ofNat size) > heapSize) :
    Runs Shows v (malloc size) (some v.heapUsed.toNat)
      { v with heapUsed := v.heapUsed + roundUp (UInt64.ofNat size) } := by
  let v' : View := { v with heapUsed := v.heapUsed + roundUp (UInt64.ofNat size) }
  have htake : Runs Shows v (modify fun ef => { ef with
      heapUsed := v.heapUsed + roundUp (UInt64.ofNat size) }) () v' :=
    modify_runs (fun _ => rfl) rfl
  exact get_runs fun d => Runs.if_neg h (htake.bind (Runs.pure _ _))

theorem bitmap_end {count start : Nat} (hsb : v.sb.Sane) (hstart : v.sb.Valid start)
    (hcount : count = v.sb.clusterCount) :
    v.sb.clusterOffset start + bmapSize count < 2 ^ 63 := by
  have hend := hsb.clusterOffset_le hstart
  have hsize := bmapSize_le hsb.count_le
  rw [hcount]
  omega

theorem flush_runs (hv : Mounted v) (hstart : v.sb.Valid v.cmap.startCluster) :
    Runs Shows v flush 0 v.flushed := by
  refine get_runs fun d => ?_
  by_cases hdirty : v.cmap.dirty = true
  · have hwrite := pwrite_runs (v := v) (chunkBytes v.cmap.chunk)
      (bitmap_end hv.sane hstart hv.chunkSize_eq)
    have heq : v.flushed = _ := if_pos hdirty
    rw [heq]
    refine Runs.if_pos hdirty ((c2o_runs hv.sane hstart).bind (hwrite.bind ?_))
    exact Runs.if_neg (by omega) ((modifyCmap_runs _).bind (Runs.pure _ _))
  · have heq : v.flushed = v := if_neg hdirty
    rw [heq]
    exact Runs.if_neg hdirty (Runs.pure v _)

end Runs

/-! ## Reserved clusters -/

section Reserved

variable {live reserved : Nat → Prop} {clusters : Nat → List Nat} {v v' : View} {d : Store}

/-- What lies outside the clusters of the files makes no difference to them. -/
theorem Represents.of_agrees (h : Represents live reserved clusters v d)
    (hmounted : Mounted v') (hsb : v'.sb = v.sb) (hnodes : ∀ n, live n → v'.nodes n = v.nodes n)
    (hfree : v'.free = v.free)
    (hdev : ∀ k c, v.sb.Valid c → ¬ reserved c → v.sb.OnLink c k ∨ v.sb.InCluster c k →
      v'.dev k = v.dev k) : Represents live reserved clusters v' d := by
  have hfile : ∀ n, live n →
      File v' n (clusters n) ∧ v'.bytes n (clusters n) = v.bytes n (clusters n) := by
    intro n hn
    have hvalid := h.sound.owned.inside n hn
    have hkept := h.sound.owned.kept n hn
    refine (h.sound.file n hn).congr (hnodes n hn) hsb (fun c hc => ?_)
      fun c hc k hk => hdev k c (hvalid c hc) (hkept c hc) (.inr hk)
    rw [VolumeOn.link, VolumeOn.link, hsb]
    exact readLe_congr fun i hi =>
      hdev _ c (hvalid c hc) (hkept c hc) (.inl ⟨by omega, by omega⟩)
  refine ⟨⟨hmounted, fun n hn => (hfile n hn).1, fun n hn => ?_, ?_⟩, ?_, ?_, fun n hn => ?_⟩
  · rw [hnodes n hn]
    exact h.sound.inUse n hn
  · rw [hsb, hfree]
    exact h.sound.owned
  · rw [hsb]
    exact h.clusterSize_eq
  · rw [hfree]
    exact h.free_eq
  · rw [h.text_eq n hn, VolumeOn.text, VolumeOn.text, hnodes n hn, (hfile n hn).2]

theorem VolumeOn.BitmapIn.mono (h : v.BitmapIn reserved) (hsb : v'.sb = v.sb)
    (hstart : v'.cmap.startCluster = v.cmap.startCluster) : v'.BitmapIn reserved := by
  refine ⟨?_, ?_⟩
  · rw [hsb, hstart]
    exact h.start
  · rw [hsb, hstart]
    exact h.inside

theorem Untouched.synced (h : Untouched live reserved v v') (hin : v.BitmapIn reserved)
    (hsane : v.sb.Sane) (hsynced : v.cmap.dirty = false → v.Synced) :
    v'.cmap.dirty = false → v'.Synced := by
  intro hclean k hk
  have hcmap := h.settings.cmap_eq hclean
  rw [hcmap] at hclean
  rw [h.settings.sb_eq] at hk ⊢
  obtain ⟨c, hc, hreserved, hck⟩ := hin.inside k hk
  rw [hcmap, h.dev _ fun e he hkept => ⟨fun hlink => ?_, fun hek => ?_⟩, hsynced hclean k hk]
  · have hlow := heapStart_le_of_inCluster hck
    have hhigh := hsane.link_le_heap he
    have hlt := hlink.2
    omega
  · rw [inCluster_inj he hc hek hck] at hkept
    exact hkept hreserved

theorem VolumeOn.flushed_rest (v : View) : { v.flushed with dev := v.dev } =
    { v with cmap := { v.cmap with dirty := false } } := by
  by_cases hdirty : v.cmap.dirty = true
  · rw [flushed, if_pos hdirty]
    rfl
  · have hclean : v.cmap.dirty = false := by simpa using hdirty
    rw [flushed, if_neg hdirty, ← hclean]

@[simp] theorem VolumeOn.flushed_sb (v : View) : v.flushed.sb = v.sb :=
  (congrArg VolumeOn.sb v.flushed_rest :)

@[simp] theorem VolumeOn.flushed_nodes (v : View) : v.flushed.nodes = v.nodes :=
  (congrArg VolumeOn.nodes v.flushed_rest :)

@[simp] theorem VolumeOn.flushed_cmap (v : View) :
    v.flushed.cmap = { v.cmap with dirty := false } :=
  (congrArg VolumeOn.cmap v.flushed_rest :)

@[simp] theorem VolumeOn.flushed_zeroCluster (v : View) :
    v.flushed.zeroCluster = v.zeroCluster :=
  (congrArg VolumeOn.zeroCluster v.flushed_rest :)

@[simp] theorem VolumeOn.flushed_heapUsed (v : View) : v.flushed.heapUsed = v.heapUsed :=
  (congrArg VolumeOn.heapUsed v.flushed_rest :)

@[simp] theorem VolumeOn.flushed_ro (v : View) : v.flushed.ro = v.ro :=
  (congrArg VolumeOn.ro v.flushed_rest :)

@[simp] theorem VolumeOn.flushed_repair (v : View) : v.flushed.repair = v.repair :=
  (congrArg VolumeOn.repair v.flushed_rest :)

end Reserved

section Flushed

variable {live reserved : Nat → Prop} {clusters : Nat → List Nat} {v v' : View} {d : Store}

theorem VolumeOn.flushed_dev (hv : Mounted v) {k : Nat}
    (hk : ∀ j < bmapSize v.sb.clusterCount,
      k ≠ v.sb.clusterOffset v.cmap.startCluster + j) : v.flushed.dev k = v.dev k := by
  by_cases hdirty : v.cmap.dirty = true
  · rw [flushed, if_pos hdirty]
    refine if_neg fun hin => hk (k - v.sb.clusterOffset v.cmap.startCluster) ?_ (by omega)
    rw [← hv.chunkSize_eq]
    omega
  · rw [flushed, if_neg hdirty]

theorem VolumeOn.flushed_synced (hv : Mounted v)
    (hsynced : v.cmap.dirty = false → v.Synced) : v.flushed.Synced := by
  intro k hk
  simp only [flushed_sb, flushed_cmap] at hk ⊢
  by_cases hdirty : v.cmap.dirty = true
  · rw [flushed, if_pos hdirty]
    simp only [store_dev, Buf.overlay, hv.chunkSize_eq]
    rw [if_pos (by omega), Nat.add_sub_cancel_left]
  · rw [flushed, if_neg hdirty]
    exact hsynced (by simpa using hdirty) k hk

theorem Represents.flushed (h : Represents live reserved clusters v d)
    (hin : v.BitmapIn reserved) : Represents live reserved clusters v.flushed d := by
  have hv := h.sound.mounted
  refine h.of_agrees ⟨?_, ?_, ?_, ?_⟩ v.flushed_sb (fun _ _ => congrFun v.flushed_nodes _) ?_
    fun k c hc hkept hk => ?_
  · simpa using hv.sane
  · simpa using hv.size_eq
  · simpa using hv.chunkSize_eq
  · simpa using hv.zeroCluster_eq
  · exact VolumeOn.free_congr v.flushed_sb (by rw [v.flushed_cmap])
  · refine VolumeOn.flushed_dev hv fun j hj heq => ?_
    obtain ⟨e, he, hreserved, hek⟩ := hin.inside j hj
    rw [← heq] at hek
    rcases hk with hlink | hck
    · have hlow := heapStart_le_of_inCluster hek
      have hhigh := hv.sane.link_le_heap hc
      have hlt := hlink.2
      omega
    · rw [inCluster_inj hc he hck hek] at hkept
      exact hkept hreserved

def VolumeOn.withChunk (v : View) (start count : Nat) : View :=
  { v.withCmap fun cmap => { cmap with
      chunk := chunkOf (Buf.overlay (fun _ => 0) 0 (bmapSize count) fun k =>
        v.dev (v.sb.clusterOffset start + k)) } with
    heapUsed := v.heapUsed + roundUp (UInt64.ofNat (bmapSize count)) }

def VolumeOn.loaded (v : View) (start : Nat) : View :=
  VolumeOn.withChunk (v.withCmap fun cmap => { cmap with
    startCluster := start
    size := v.sb.clusterCount
    chunkSize := v.sb.clusterCount }) start v.sb.clusterCount

theorem loadChunk_runs (hsane : v.sb.Sane) {start count : Nat} (hstart : v.sb.Valid start)
    (hcount : count = v.sb.clusterCount)
    (hheap : ¬ v.heapUsed + roundUp (UInt64.ofNat (bmapSize count)) > heapSize) :
    Runs Shows v (loadChunk start count) 0 (v.withChunk start count) := by
  refine (malloc_runs hheap).bind (Runs.bind (c2o_runs hsane hstart) ?_)
  refine Runs.bind (pread_runs _ (bitmap_end hsane hstart hcount)) ?_
  exact (modifyCmap_runs _).bind (Runs.if_neg (by simp) (Runs.pure _ _))

theorem loadBitmap_runs (hsane : v.sb.Sane) (entry : Buf)
    (hstart : v.sb.Valid (readLe entry 20 4))
    (hsize : u32 (v.sb.clusterCount + 8 - 1) / 8 ≤ readLe entry 24 8)
    (hheap : ¬ v.heapUsed + roundUp (UInt64.ofNat (bmapSize v.sb.clusterCount)) > heapSize) :
    Runs Shows v (loadBitmap entry) 0 (v.loaded (readLe entry 20 4)) := by
  refine (modifyCmap_runs _).bind (get_runs fun dev => Runs.if_neg (by simpa using hstart) ?_)
  refine (modifyCmap_runs _).bind (Runs.if_neg (by simpa using hsize) ?_)
  refine (modifyCmap_runs _).bind ?_
  refine loadChunk_runs ?_ ?_ ?_ ?_
  · exact hsane
  · exact hstart
  · exact rfl
  · exact hheap

theorem Represents.reloaded (h : Represents live reserved clusters v d) (v' : View)
    (hsynced : v.Synced) (hnodes : v'.nodes = v.nodes) (hsb : v'.sb = v.sb) (hdev : v'.dev = v.dev)
    (hzero : v'.zeroCluster = v.zeroCluster) :
    Represents live reserved clusters (v'.loaded v.cmap.startCluster) d := by
  have hv := h.sound.mounted
  refine h.of_agrees ⟨?_, rfl, rfl, ?_⟩ hsb (fun _ _ => congrFun hnodes _) ?_
    fun k _ _ _ _ => congrFun hdev k
  · show v'.sb.Sane
    rw [hsb]
    exact hv.sane
  · intro k hk
    show v'.zeroCluster k = 0
    rw [hzero]
    refine hv.zeroCluster_eq k ?_
    rw [← hsb]
    exact hk
  · refine VolumeOn.free_of_words hsb fun i hi => chunkOf_eq fun j hj => ?_
    have hlt := lt_bmapSize hi hj
    simp only [VolumeOn.withCmap_sb, VolumeOn.withCmap_dev, hsb, hdev, Buf.overlay,
      Nat.zero_le, Nat.zero_add, hlt, and_self, if_true, Nat.sub_zero]
    exact hsynced _ hlt

end Flushed

section Reload

variable {live reserved : Nat → Prop} {clusters : Nat → List Nat} {ef : Volume} {v : View}
  {d : Store}

/--
After any session and a flush the bitmap can be loaded from the disk again, whatever
is left of it in memory, and the volume holds the same store of files.
-/
theorem session_survives_reload (calls : List Call) (hshows : Shows ef v)
    (h : Represents live reserved clusters v d) (hproper : AllProper live d calls)
    (hin : v.BitmapIn reserved) (hsynced : v.cmap.dirty = false → v.Synced) (entry : Buf)
    (hstart : readLe entry 20 4 = v.cmap.startCluster)
    (hsize : u32 (v.sb.clusterCount + 8 - 1) / 8 ≤ readLe entry 24 8)
    (hheap : ¬ v.heapUsed + roundUp (UInt64.ofNat (bmapSize v.sb.clusterCount)) > heapSize)
    (lost : ClusterMap) :
    ∃ ef₁ ef₂ ef₃ v' clusters', runAll calls ef = some ((applyAll d calls).1, ef₁) ∧
      flush ef₁ = some (0, ef₂) ∧
      loadBitmap entry { ef₂ with cmap := lost } = some (0, ef₃) ∧ Shows ef₃ v' ∧
      Represents live reserved clusters' v' (applyAll d calls).2 := by
  obtain ⟨v₁, clusters', hrun, hafter, huntouched⟩ := runAll_follows calls h hproper
  obtain ⟨ef₁, heq₁, hshows₁⟩ := hrun ef hshows
  have hsb := huntouched.settings.sb_eq
  have hplace := huntouched.settings.startCluster_eq
  have hin₁ := hin.mono hsb hplace
  have hmounted := hafter.sound.mounted
  obtain ⟨ef₂, heq₂, hshows₂⟩ := flush_runs hmounted hin₁.start ef₁ hshows₁
  have hsynced₂ := VolumeOn.flushed_synced hmounted
    (huntouched.synced hin h.sound.mounted.sane hsynced)
  let w : View := { v₁.flushed with cmap := lost }
  have hshows' : Shows { ef₂ with cmap := lost } w := by
    obtain ⟨dev, hdev, rfl⟩ := hshows₂
    exact ⟨dev, hdev, rfl⟩
  have hsbw : w.sb = v.sb := v₁.flushed_sb.trans hsb
  have hload := loadBitmap_runs (v := w) (by rw [hsbw]; exact h.sound.mounted.sane) entry
    (by rw [hsbw, hstart]; exact hin.start) (by rw [hsbw]; exact hsize)
    (by rw [hsbw]; exact (v₁.flushed_heapUsed.trans huntouched.settings.heapUsed_eq) ▸ hheap)
  obtain ⟨ef₃, heq₃, hshows₃⟩ := hload _ hshows'
  refine ⟨ef₁, ef₂, ef₃, _, clusters', heq₁, heq₂, heq₃, hshows₃, ?_⟩
  have hreloaded := (hafter.flushed hin₁).reloaded w hsynced₂ rfl rfl rfl rfl
  rwa [v₁.flushed_cmap, hplace, ← hstart] at hreloaded

end Reload

/-! ## A small volume with its bitmap -/

/-- The first cluster holds the bitmap, which is not on the disk yet. -/
def mappedView : View := smallView.take 2

theorem mappedView_free : mappedView.free = Finset.Ico 3 10 := by
  rw [mappedView, VolumeOn.take_free ⟨by decide, by decide⟩, smallView_free]
  decide

theorem mappedView_represents (live : Nat → Prop) :
    Represents live (· = 2) (fun _ => []) mappedView (smallStore 7) := by
  have hmounted : Mounted mappedView :=
    ⟨smallView_mounted.sane, smallView_mounted.size_eq, smallView_mounted.chunkSize_eq,
      smallView_mounted.zeroCluster_eq⟩
  have h := empty_represents live (· = 2) hmounted (by decide) (fun _ _ => ⟨0, rfl⟩) fun c => by
    rw [mappedView_free]
    simp [SuperBlock.Valid, mappedView, smallView, smallSuperBlock_clusterCount,
      firstDataCluster]
    omega
  rwa [mappedView_free] at h

/-- A bitmap of eight bytes that lies in the first cluster. -/
theorem bitmapIn_first {v : View} (hcount : v.sb.clusterCount = 8)
    (hsize : v.sb.clusterSize = 512) (hstart : v.cmap.startCluster = 2) :
    v.BitmapIn (· = 2) := by
  have hvalid : v.sb.Valid 2 := by simp [SuperBlock.Valid, hcount, firstDataCluster]
  refine ⟨by rwa [hstart], fun k hk => ⟨2, hvalid, rfl, ?_⟩⟩
  rw [hcount] at hk
  have hlt : k < 8 := hk
  simp only [SuperBlock.InCluster, hsize, hstart]
  omega

theorem mappedView_bitmapIn : mappedView.BitmapIn (· = 2) :=
  bitmapIn_first (by decide) (by decide) rfl

def mappedVolume : Volume := mappedView.on smallVolume.dev

theorem mappedVolume_shows : Shows mappedVolume mappedView := by
  obtain ⟨dev, hdev, heq⟩ := smallVolume_shows
  exact ⟨smallVolume.dev, heq ▸ hdev, rfl⟩

/-- The file that was written is there after the bitmap was loaded again. -/
theorem small_session_reloaded :
    ∃ ef₁ ef₂ ef₃ ef₄, runAll [.write 1 [1, 2, 3] 0] mappedVolume = some ([(3, [])], ef₁) ∧
      flush ef₁ = some (0, ef₂) ∧
      loadBitmap (storeLe (storeLe (fun _ => 0) 20 4 2) 24 8 1)
        { ef₂ with cmap := smallView.cmap } = some (0, ef₃) ∧
      runAll [.read 1 9 1] ef₃ = some ([(2, [2, 3])], ef₄) := by
  obtain ⟨ef₁, ef₂, ef₃, v', clusters', hrun, hflush, hload, hshows, hafter⟩ :=
    session_survives_reload [.write 1 [1, 2, 3] 0] mappedVolume_shows
      (mappedView_represents fun _ => True) (by decide) mappedView_bitmapIn nofun
      (storeLe (storeLe (fun _ => 0) 20 4 2) 24 8 1) (by decide) (by decide) (by decide)
      smallView.cmap
  obtain ⟨_, _, hread, -⟩ := runAll_follows [.read 1 9 1] hafter (by decide)
  obtain ⟨ef₄, heq, -⟩ := hread ef₃ hshows
  exact ⟨ef₁, ef₂, ef₃, ef₄, hrun, hflush, hload, heq⟩

end EntropyOS.Libexfat
