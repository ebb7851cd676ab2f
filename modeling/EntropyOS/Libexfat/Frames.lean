import EntropyOS.Libexfat.Allocation

/-!
# What a change of the clusters of one node leaves alone

`Frame node S v v'` allows a program to move one node, to write the links of the
clusters `S`, and to change the bitmap.  Everything else stays: the bytes of all
clusters, and the files of the other nodes as long as they own none of `S`.
-/

namespace EntropyOS.Libexfat

open EntropyOS.Foundation

def Node.Relocated (node node' : Node) : Prop :=
  node' = { node with
    startCluster := node'.startCluster
    fptrIndex := node'.fptrIndex
    fptrCluster := node'.fptrCluster
    isContiguous := node'.isContiguous
    isDirty := node'.isDirty }

namespace Node.Relocated

variable {a b c : Node}

theorem refl (a : Node) : a.Relocated a := rfl

theorem trans (hab : a.Relocated b) (hbc : b.Relocated c) : a.Relocated c := by
  rw [Relocated] at hab hbc
  rw [Relocated, hbc, hab]

theorem size_eq (h : a.Relocated b) : b.size = a.size := by
  rw [Relocated] at h
  rw [h]

theorem validSize_eq (h : a.Relocated b) : b.validSize = a.validSize := by
  rw [Relocated] at h
  rw [h]

end Node.Relocated

/-- A byte of the entry of a cluster in the FAT. -/
def SuperBlock.OnLink (sb : SuperBlock) (cluster k : Nat) : Prop :=
  sb.fatStart + cluster * 4 ≤ k ∧ k < sb.fatStart + cluster * 4 + 4

/--
All that does not change while files are written.  The bitmap does, and is dirty
then.
-/
structure VolumeOn.SameSettings (v v' : View) : Prop where
  rest_eq : { v' with
    dev := v.dev
    nodes := v.nodes
    exfatErrors := v.exfatErrors
    cmap := { v'.cmap with chunk := v.cmap.chunk, dirty := v.cmap.dirty } } = v
  cmap_eq : v'.cmap.dirty = false → v'.cmap = v.cmap

namespace VolumeOn.SameSettings

variable {v v' v'' : View}

theorem refl (v : View) : v.SameSettings v := ⟨rfl, fun _ => rfl⟩

theorem trans (h : v.SameSettings v') (h' : v'.SameSettings v'') :
    v.SameSettings v'' where
  rest_eq := by rw [← h.rest_eq, ← h'.rest_eq]
  cmap_eq hclean := by
    have heq := h'.cmap_eq hclean
    rw [heq, h.cmap_eq (by rwa [← heq])]

theorem sb_eq (h : v.SameSettings v') : v'.sb = v.sb := by
  rw [← h.rest_eq]

theorem ro_eq (h : v.SameSettings v') : v'.ro = v.ro := by
  rw [← h.rest_eq]

theorem heapUsed_eq (h : v.SameSettings v') : v'.heapUsed = v.heapUsed := by
  rw [← h.rest_eq]

theorem repair_eq (h : v.SameSettings v') : v'.repair = v.repair := by
  rw [← h.rest_eq]

theorem startCluster_eq (h : v.SameSettings v') :
    v'.cmap.startCluster = v.cmap.startCluster := by
  rw [← h.rest_eq]

theorem size_eq (h : v.SameSettings v') : v'.cmap.size = v.cmap.size := by
  rw [← h.rest_eq]

theorem chunkSize_eq (h : v.SameSettings v') :
    v'.cmap.chunkSize = v.cmap.chunkSize := by
  rw [← h.rest_eq]

theorem zeroCluster_eq (h : v.SameSettings v') : v'.zeroCluster = v.zeroCluster := by
  rw [← h.rest_eq]

theorem mounted (h : v.SameSettings v') (hv : Mounted v) : Mounted v' := by
  have hsb := h.sb_eq
  have hsize := h.size_eq
  have hchunk := h.chunkSize_eq
  have hzero := h.zeroCluster_eq
  constructor
  · rw [hsb]
    exact hv.sane
  · rw [hsize, hsb, hv.size_eq]
  · rw [hchunk, hsb, hv.chunkSize_eq]
  · rw [hzero, hsb]
    exact hv.zeroCluster_eq

end VolumeOn.SameSettings

structure Frame (node : Nat) (S : Finset Nat) (v v' : View) : Prop where
  settings : v.SameSettings v'
  relocated : (v.nodes node).Relocated (v'.nodes node)
  others : ∀ m, m ≠ node → v'.nodes m = v.nodes m
  dev : ∀ k, (∀ c ∈ S, ¬ v.sb.OnLink c k) → v'.dev k = v.dev k

namespace Frame

variable {node : Nat} {S T : Finset Nat} {v v' v'' : View}

theorem refl (node : Nat) (S : Finset Nat) (v : View) : Frame node S v v :=
  ⟨.refl v, .refl _, fun _ _ => rfl, fun _ _ => rfl⟩

theorem trans (h : Frame node S v v') (h' : Frame node S v' v'') :
    Frame node S v v'' where
  settings := h.settings.trans h'.settings
  relocated := h.relocated.trans h'.relocated
  others m hm := (h'.others m hm).trans (h.others m hm)
  dev k hk := by
    rw [h'.dev k (by simpa only [h.settings.sb_eq] using hk), h.dev k hk]

theorem mono (h : Frame node S v v') (hsub : S ⊆ T) : Frame node T v v' :=
  ⟨h.settings, h.relocated, h.others, fun k hk => h.dev k fun c hc => hk c (hsub hc)⟩

theorem relink (contiguous : Bool) (c target : Nat) :
    Frame node {c} v (v.relink contiguous c target) := by
  cases contiguous with
  | true => exact refl node {c} v
  | false =>
      refine ⟨⟨rfl, fun _ => rfl⟩, .refl _, fun _ _ => rfl, fun k hk => ?_⟩
      exact VolumeOn.withLink_dev_of_ne (hk c (by simp))

theorem setNode {node' : Node} (h : (v.nodes node).Relocated node') :
    Frame node S v (v.setNode node node') := by
  refine ⟨⟨rfl, fun _ => rfl⟩, by simpa using h, fun m hm => ?_, fun _ _ => rfl⟩
  exact v.setNode_nodes_ne node node' hm

theorem point (index c : Nat) : Frame node S v (v.point node index c) :=
  setNode rfl

theorem setChunk (chunk : Bitmap 64) : Frame node S v (v.setChunk chunk) :=
  ⟨⟨rfl, nofun⟩, .refl _, fun _ _ => rfl, fun _ _ => rfl⟩

theorem countError : Frame node S v v.countError :=
  ⟨⟨rfl, fun _ => rfl⟩, .refl _, fun _ _ => rfl, fun _ _ => rfl⟩

theorem link_eq (h : Frame node S v v') {c : Nat} (hc : c ∉ S) :
    v'.link c = v.link c := by
  rw [VolumeOn.link, h.settings.sb_eq]
  refine readLe_congr fun i hi => h.dev _ fun d hd hon => ?_
  have hne : d ≠ c := fun heq => hc (heq ▸ hd)
  simp only [SuperBlock.OnLink] at hon
  omega

theorem heap_eq (h : Frame node S v v') (hv : Mounted v) (hS : ∀ c ∈ S, v.sb.Valid c)
    {k : Nat} (hk : v.sb.heapStart ≤ k) : v'.dev k = v.dev k := by
  refine h.dev k fun c hc hon => ?_
  have hle := hv.sane.link_le_heap (hS c hc)
  have hlt := hon.2
  omega

end Frame

end EntropyOS.Libexfat
