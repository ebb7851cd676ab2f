import EntropyOS.Libexfat.Contents

/-!
# Files, and how `exfat_truncate` changes one

A node with its clusters is a file when the chain is whole and as long as the
size asks for.  The bytes of a file are those in its clusters up to the valid
size, and zeros from there on.
-/

namespace EntropyOS.Libexfat

open EntropyOS.Foundation

/-- Nothing but the place, the sizes and the times of a node is different. -/
def Node.SameIdentity (node node' : Node) : Prop :=
  { node' with
    startCluster := node.startCluster
    fptrIndex := node.fptrIndex
    fptrCluster := node.fptrCluster
    isContiguous := node.isContiguous
    isDirty := node.isDirty
    validSize := node.validSize
    size := node.size
    mtime := node.mtime
    atime := node.atime } = node

namespace Node.SameIdentity

variable {a b c : Node}

theorem refl (a : Node) : a.SameIdentity a := rfl

theorem trans (hab : a.SameIdentity b) (hbc : b.SameIdentity c) : a.SameIdentity c := by
  rw [SameIdentity] at hab hbc
  rw [SameIdentity, ← hab, ← hbc]

theorem of_relocated (h : a.Relocated b) : a.SameIdentity b := by
  rw [Relocated] at h
  rw [SameIdentity, h]

theorem references_eq (h : a.SameIdentity b) : b.references = a.references := by
  rw [SameIdentity] at h
  rw [← h]

theorem parent_eq (h : a.SameIdentity b) : b.parent = a.parent := by
  rw [SameIdentity] at h
  rw [← h]

theorem attrib_eq (h : a.SameIdentity b) : b.attrib = a.attrib := by
  rw [SameIdentity] at h
  rw [← h]

end Node.SameIdentity

/-- What may change with one file: its node, the links of `S`, and the bytes in `S`. -/
structure Change (node : Nat) (S : Finset Nat) (v v' : View) : Prop where
  settings : v.SameSettings v'
  identity : (v.nodes node).SameIdentity (v'.nodes node)
  others : ∀ m, m ≠ node → v'.nodes m = v.nodes m
  dev : ∀ k, (∀ c ∈ S, ¬ v.sb.OnLink c k ∧ ¬ v.sb.InCluster c k) → v'.dev k = v.dev k

namespace Change

variable {node : Nat} {S T : Finset Nat} {v v' v'' : View}

theorem refl (node : Nat) (S : Finset Nat) (v : View) : Change node S v v :=
  ⟨.refl v, .refl _, fun _ _ => rfl, fun _ _ => rfl⟩

theorem trans (h : Change node S v v') (h' : Change node S v' v'') :
    Change node S v v'' where
  settings := h.settings.trans h'.settings
  identity := h.identity.trans h'.identity
  others m hm := (h'.others m hm).trans (h.others m hm)
  dev k hk := by
    rw [h'.dev k (by simpa only [h.settings.sb_eq] using hk), h.dev k hk]

theorem mono (h : Change node S v v') (hsub : S ⊆ T) : Change node T v v' :=
  ⟨h.settings, h.identity, h.others, fun k hk => h.dev k fun c hc => hk c (hsub hc)⟩

theorem of_frame (h : Frame node S v v') : Change node S v v' :=
  ⟨h.settings, .of_relocated h.relocated, h.others, fun k hk => h.dev k fun c hc => (hk c hc).1⟩

theorem setNode {node' : Node} (h : (v.nodes node).SameIdentity node') :
    Change node S v (v.setNode node node') := by
  refine ⟨⟨rfl, fun _ => rfl⟩, by simpa using h, fun m hm => ?_, fun _ _ => rfl⟩
  exact v.setNode_nodes_ne node node' hm

theorem of_overlaid {cs : List Nat} {start count : Nat} {buffer : Buf}
    (h : Overlaid cs start count buffer v v')
    (hidentity : (v.nodes node).SameIdentity (v'.nodes node))
    (hothers : ∀ m, m ≠ node → v'.nodes m = v.nodes m) :
    Change node cs.toFinset v v' :=
  ⟨h.settings, hidentity, hothers, fun k hk => h.dev k fun c hc =>
    (hk c (List.mem_toFinset.mpr hc)).2⟩

section Others

variable (h : Change node S v v') (hsb : v.sb.Sane) {c : Nat}
  (hvalid : v.sb.Valid c) (hc : c ∉ S)

include h hsb hvalid hc

theorem link_eq : v'.link c = v.link c := by
  rw [VolumeOn.link, h.settings.sb_eq]
  refine readLe_congr fun i hi => h.dev _ fun d hd => ⟨fun hon => ?_, fun hin => ?_⟩
  · have hne : d ≠ c := fun heq => hc (heq ▸ hd)
    simp only [SuperBlock.OnLink] at hon
    omega
  · have hle := heapStart_le_of_inCluster hin
    have hfat := hsb.link_le_heap hvalid
    omega

theorem cluster_eq (hS : ∀ d ∈ S, v.sb.Valid d) {k : Nat} (hk : v.sb.InCluster c k) : v'.dev k = v.dev k := by
  refine h.dev k fun d hd => ⟨fun hon => ?_, fun hin => ?_⟩
  · have hle := heapStart_le_of_inCluster hk
    have hfat := hsb.link_le_heap (hS d hd)
    have hlt := hon.2
    omega
  · exact hc (inCluster_inj (hS d hd) hvalid hin hk ▸ hd)

end Others

end Change

def SuperBlock.clustersFor (sb : SuperBlock) (size : Nat) : Nat :=
  (size + (sb.clusterSize - 1)) / sb.clusterSize

/-- The largest file whose number of clusters is computed without a wrap. -/
def SuperBlock.sizeLimit (sb : SuperBlock) : Nat := 0xffffffff * sb.clusterSize

section Counting

variable {sb : SuperBlock} {size : Nat}

theorem bytes2clusters_eq (hsb : sb.Sane) (h : size ≤ sb.sizeLimit) :
    sb.bytes2clusters size = sb.clustersFor size := by
  have hpos := sb.clusterSize_pos
  have hle := hsb.clusterSize_le
  rw [SuperBlock.sizeLimit] at h
  have hdiv : sb.clustersFor size ≤ 0xffffffff := by
    rw [SuperBlock.clustersFor, Nat.div_le_iff_le_mul_add_pred hpos, Nat.mul_comm]
    omega
  have hwide : size + (sb.clusterSize - 1) < 18446744073709551616 := by omega
  rw [SuperBlock.bytes2clusters, u64, Nat.mod_eq_of_lt hwide]
  exact u32_of_lt (by
    rw [SuperBlock.clustersFor] at hdiv
    omega)

theorem size_le_clusters (sb : SuperBlock) (size : Nat) :
    size ≤ sb.clustersFor size * sb.clusterSize := by
  have hpos := sb.clusterSize_pos
  have hlt := Nat.lt_mul_div_succ (size + (sb.clusterSize - 1)) hpos
  rw [SuperBlock.clustersFor, Nat.mul_comm]
  rw [Nat.mul_add] at hlt
  omega

theorem clustersFor_mono (sb : SuperBlock) {a b : Nat} (h : a ≤ b) :
    sb.clustersFor a ≤ sb.clustersFor b :=
  Nat.div_le_div_right (by omega)

end Counting

structure File (v : View) (node : Nat) (cs : List Nat) : Prop where
  chain : Chain v node cs
  ended : Ended v node cs
  length_eq : cs.length = v.sb.clustersFor (v.nodes node).size
  valid_le : (v.nodes node).validSize ≤ (v.nodes node).size

/-- The bytes of a file, as the program that reads it gets them. -/
def VolumeOn.bytes (v : View) (node : Nat) (cs : List Nat) : Buf := fun k =>
  if k < (v.nodes node).validSize then v.content cs k else 0

section Others

variable {node : Nat} {S : Finset Nat} {v v' : View}

/-- A file depends on its node, its links and its clusters only. -/
theorem File.congr {m : Nat} {ds : List Nat} (h : File v m ds)
    (hnode : v'.nodes m = v.nodes m) (hsb : v'.sb = v.sb)
    (hlink : ∀ d ∈ ds, v'.link d = v.link d)
    (hdev : ∀ d ∈ ds, ∀ k, v.sb.InCluster d k → v'.dev k = v.dev k) :
    File v' m ds ∧ v'.bytes m ds = v.bytes m ds := by
  refine ⟨⟨?_, ?_, ?_, ?_⟩, funext fun k => ?_⟩
  · exact h.chain.congr (.of_eq hnode) hlink hsb
  · exact h.ended.congr (.of_eq hnode) hlink
  · rw [hnode, hsb, h.length_eq]
  · rw [hnode]
    exact h.valid_le
  · rw [VolumeOn.bytes, VolumeOn.bytes, hnode]
    split
    · next hk =>
        refine content_congr hsb hdev ?_
        have hle := size_le_clusters v.sb (v.nodes m).size
        have hvalid := h.valid_le
        rw [h.length_eq]
        omega
    · rfl

theorem Change.file (h : Change node S v v') (hsb : v.sb.Sane)
    (hS : ∀ c ∈ S, v.sb.Valid c) {m : Nat} {ds : List Nat} (hm : m ≠ node)
    (hds : ∀ d ∈ ds, d ∉ S) (hfile : File v m ds) :
    File v' m ds ∧ v'.bytes m ds = v.bytes m ds :=
  hfile.congr (h.others m hm) h.settings.sb_eq
    (fun d hd => h.link_eq hsb (hfile.chain.valid d hd) (hds d hd))
    fun d hd _ hk => h.cluster_eq hsb (hfile.chain.valid d hd) (hds d hd) hS hk

end Others

/-! ## The clusters of a new size -/

/-- The file after its clusters were changed, with the bytes that both have. -/
structure Relaid (node : Nat) (cs cs' : List Nat) (v v' : View) : Prop where
  chain : Chain v' node cs'
  ended : Ended v' node cs'
  frame : Frame node (cs.toFinset ∪ v.free) v v'
  free_eq : v'.free ∪ cs'.toFinset = v.free ∪ cs.toFinset
  fresh : ∀ c ∈ cs', c ∉ v'.free
  content : ∀ k < cs.length * v.sb.clusterSize, k < cs'.length * v.sb.clusterSize →
    v'.content cs' k = v.content cs k

section Resize

variable {v v' : View} {node : Nat} {cs : List Nat}

theorem content_of_frame {S : Finset Nat} (h : Frame node S v v') (hv : Mounted v)
    (hS : ∀ c ∈ S, v.sb.Valid c) {ds : List Nat} {k : Nat}
    (hk : k < ds.length * v.sb.clusterSize) : v'.content ds k = v.content ds k := by
  refine content_congr h.settings.sb_eq (fun c _ j hj => ?_) hk
  exact h.heap_eq hv hS (heapStart_le_of_inCluster hj)

theorem valid_of_mem_union (h : Chain v node cs) :
    ∀ c ∈ cs.toFinset ∪ v.free, v.sb.Valid c := by
  intro c hc
  rcases Finset.mem_union.mp hc with hc | hc
  · exact h.valid c (List.mem_toFinset.mp hc)
  · exact VolumeOn.valid_of_mem_free hc

theorem Grown.relaid {count : Nat} {new : List Nat} (hv : Mounted v) (h : Chain v node cs)
    (hfresh : ∀ c ∈ cs, c ∉ v.free) (hgrown : Grown node cs count v v' new)
    (hended : Ended v' node (cs ++ new)) : Relaid node cs (cs ++ new) v v' := by
  refine ⟨hgrown.chain, hended, hgrown.frame, ?_, hgrown.notMem_free hfresh, ?_⟩
  · rw [hgrown.free_eq]
    ext c
    by_cases hc : c ∈ new
    · simp [hc, hgrown.new_free c hc]
    · simp [hc, or_comm]
  · intro k hk _
    rw [content_append new (by rwa [hgrown.frame.settings.sb_eq])]
    exact content_of_frame hgrown.frame hv (valid_of_mem_union h) hk

theorem Reverted.relaid (hv : Mounted v) (h : Chain v node cs) (hended : Ended v node cs)
    (hfresh : ∀ c ∈ cs, c ∉ v.free) (hreverted : Reverted node cs.length cs v v') :
    Relaid node cs cs v v' := by
  obtain ⟨hchain, hended', hfree, hframe⟩ := hreverted
  rw [List.take_length] at hchain hended'
  rw [List.drop_length, List.toFinset_nil, Finset.union_empty] at hfree
  refine ⟨hchain, hended' fun _ => hended, hframe, by rw [hfree], ?_, ?_⟩
  · rwa [hfree]
  · exact fun k hk _ => content_of_frame hframe hv (valid_of_mem_union h) hk

theorem shrinkFile_relaid (hv : Mounted v) (h : Chain v node cs)
    (hfresh : ∀ c ∈ cs, c ∉ v.free) {target : Nat} (hlt : target < cs.length) :
    ∃ v', Runs Shows v (shrinkFile node cs.length (cs.length - target)) 0 v' ∧
      Relaid node cs (cs.take target) v v' := by
  have hkept : (cs.take target).length = target := by
    rw [List.length_take]
    omega
  have hdropped : (cs.drop target).length = cs.length - target := List.length_drop
  have hne : cs.drop target ≠ [] := List.ne_nil_of_length_pos (by omega)
  have hcs : cs.take target ++ cs.drop target = cs := List.take_append_drop target cs
  have hsplit : Chain v node (cs.take target ++ cs.drop target) := by rwa [hcs]
  obtain ⟨v', hrun, hchain, hended, hframe, hfree⟩ :=
    shrinkFile_runs hv hne hsplit
  rw [hkept, hdropped, Nat.add_sub_cancel' (by omega)] at hrun
  rw [hcs] at hframe
  refine ⟨v', hrun, hchain, hended, hframe.mono Finset.subset_union_left, ?_, ?_, ?_⟩
  · rw [hfree, Finset.union_assoc, Finset.union_comm (cs.drop target).toFinset,
      ← List.toFinset_append, hcs]
  · intro c hc
    rw [hfree, Finset.mem_union, List.mem_toFinset]
    rintro (hmem | hmem)
    · exact hfresh c (List.mem_of_mem_take hc) hmem
    · have hnodup := h.nodup
      rw [← hcs] at hnodup
      exact List.disjoint_of_nodup_append hnodup hc hmem
  · intro k _ hk
    have hsame := content_append (v := v) (cs.drop target) hk
    rw [hcs] at hsame
    rw [hsame]
    exact content_of_frame (hframe.mono Finset.subset_union_left) hv (valid_of_mem_union h) hk

theorem resize_runs (hv : Mounted v) (hfile : File v node cs)
    (hfresh : ∀ c ∈ cs, c ∉ v.free) {target : Nat}
    (htarget : target ≤ cs.length + v.free.card) :
    ∃ v' cs', Runs Shows v (resize node cs.length target) 0 v' ∧
      Relaid node cs cs' v v' ∧ cs'.length = target := by
  have h := hfile.chain
  rcases Nat.lt_trichotomy cs.length target with hlt | heq | hlt
  · obtain ⟨v', new, hrun, hgrown, hended⟩ := growFile_runs hv h hfresh
      (show target - cs.length ≠ 0 by omega) (by omega)
    refine ⟨v', cs ++ new, Runs.if_pos hlt hrun, hgrown.relaid hv h hfresh hended, ?_⟩
    rw [List.length_append, hgrown.length_eq]
    omega
  · refine ⟨v, cs, Runs.if_neg (by omega) (Runs.if_neg (by omega) (Runs.pure v _)), ?_, heq⟩
    exact ⟨h, hfile.ended, .refl _ _ _, rfl, hfresh, fun _ _ _ => rfl⟩
  · obtain ⟨v', hrun, hrelaid⟩ := shrinkFile_relaid hv h hfresh hlt
    refine ⟨v', _, Runs.if_neg (by omega) (Runs.if_pos hlt hrun), hrelaid, ?_⟩
    rw [List.length_take]
    omega

theorem resize_fails (hv : Mounted v) (hfile : File v node cs)
    (hfresh : ∀ c ∈ cs, c ∉ v.free) {target : Nat}
    (htarget : cs.length + v.free.card < target) :
    ∃ v', Runs Shows v (resize node cs.length target) (-enospc) v' ∧
      Relaid node cs cs v v' := by
  obtain ⟨v', hrun, hreverted⟩ := growFile_fails hv hfile.chain hfresh
    (show v.free.card < target - cs.length by omega)
  exact ⟨v', Runs.if_pos (by omega) hrun,
    hreverted.relaid hv hfile.chain hfile.ended hfresh⟩

end Resize

/-! ## The valid size -/

/-- The file after its valid size was set, with the same bytes up to `size`. -/
structure Settled (node : Nat) (cs : List Nat) (size : Nat) (v v' : View) : Prop where
  chain : Chain v' node cs
  ended : Ended v' node cs
  change : Change node cs.toFinset v v'
  free_eq : v'.free = v.free
  size_eq : (v'.nodes node).size = (v.nodes node).size
  bytes : ∀ k < size, v'.bytes node cs k = v.bytes node cs k

section Settle

variable {v v' : View} {node : Nat} {cs : List Nat} {size : Nat}

theorem Settled.setNode (h : Settled node cs size v v') {node' : Node}
    (hplace : (v'.nodes node).SamePlace node')
    (hidentity : (v'.nodes node).SameIdentity node')
    (hsize : node'.size = (v'.nodes node).size)
    (hbytes : ∀ k < size, (if k < node'.validSize then v'.content cs k else 0) =
      v'.bytes node cs k) :
    Settled node cs size v (v'.setNode node node') where
  chain := h.chain.congr (by simpa using hplace) (fun _ _ => rfl) rfl
  ended := h.ended.congr (by simpa using hplace) fun _ _ => rfl
  change := h.change.trans (Change.setNode hidentity)
  free_eq := h.free_eq
  size_eq := by simpa [hsize] using h.size_eq
  bytes k hk := by
    rw [← h.bytes k hk, ← hbytes k hk, VolumeOn.bytes, VolumeOn.setNode_nodes_self]
    rfl

theorem Settled.refl (h : Chain v node cs) (hended : Ended v node cs) (size : Nat) :
    Settled node cs size v v :=
  ⟨h, hended, .refl _ _ _, rfl, rfl, fun _ _ => rfl⟩

theorem eraseRange_settled (hv : Mounted v) (h : Chain v node cs)
    (hended : Ended v node cs) (hsize : size ≤ cs.length * v.sb.clusterSize) :
    ∃ v', Runs Shows v (eraseRange node (v.nodes node).validSize size) 0 v' ∧
      Settled node cs size v v' ∧
      ∀ k < size, v'.content cs k = v.bytes node cs k := by
  by_cases hlt : (v.nodes node).validSize < size
  · obtain ⟨v', count, hrun, hoverlaid, hcount, i, hi, hnodes⟩ := eraseRange_runs hv h hlt hsize
    have hplace : ((v.point node i cs[i]).nodes node).SamePlace (v'.nodes node) :=
      .of_eq (congrFun hnodes node)
    have hlink : ∀ c ∈ cs, v'.link c = v.link c := fun c hc =>
      hoverlaid.link_eq hv.sane (h.valid c hc)
    have hnode : v'.nodes node =
        { v.nodes node with fptrIndex := i, fptrCluster := cs[i] } := by
      rw [hnodes]
      simp [VolumeOn.point]
    have hcontent : ∀ k < size, v'.content cs k = v.bytes node cs k := by
      intro k hk
      rw [hoverlaid.content k (by omega), VolumeOn.bytes, Buf.overlay]
      by_cases hkept : k < (v.nodes node).validSize
      · rw [if_neg (by omega), if_pos hkept]
      · rw [if_pos (by omega), if_neg hkept]
    refine ⟨v', hrun, ⟨?_, ?_, ?_, hoverlaid.free_eq, by rw [hnode], ?_⟩, hcontent⟩
    · exact (h.point hi).congr hplace hlink hoverlaid.settings.sb_eq
    · refine Ended.congr (v := v.point node i cs[i]) ?_ hplace hlink
      simpa [Ended, VolumeOn.link, VolumeOn.point] using hended
    · refine .of_overlaid hoverlaid (by rw [hnode]; rfl) fun m hm => ?_
      rw [hnodes]
      exact v.setNode_nodes_ne node _ hm
    · intro k hk
      rw [← hcontent k hk, VolumeOn.bytes, hnode]
      split
      · rfl
      · next hout =>
          rw [hcontent k hk, VolumeOn.bytes, if_neg hout]
  · refine ⟨v, Runs.if_pos (by omega) (Runs.pure v _), .refl h hended size, fun k hk => ?_⟩
    rw [VolumeOn.bytes, if_pos (by omega)]

theorem setValidSize_runs (hv : Mounted v) (h : Chain v node cs)
    (hended : Ended v node cs) (hsize : size ≤ cs.length * v.sb.clusterSize)
    (erase : Bool) :
    ∃ v', Runs Shows v (setValidSize node size erase) 0 v' ∧ Settled node cs size v v' ∧
      (v'.nodes node).validSize =
        if erase then size else min (v.nodes node).validSize size := by
  cases erase with
  | true =>
      obtain ⟨w, hrun, hw, hcontent⟩ := eraseRange_settled hv h hended hsize
      refine ⟨w.setNode node { w.nodes node with validSize := size }, ?_, ?_, by simp⟩
      · refine Runs.if_pos rfl ((getNode_runs node).bind (hrun.bind ?_))
        exact Runs.if_neg (by simp) ((modifyNode_runs node _).bind (Runs.pure _ _))
      · refine hw.setNode ⟨rfl, rfl, rfl, rfl⟩ rfl rfl fun k hk => ?_
        rw [if_pos hk, hw.bytes k hk, hcontent k hk]
  | false =>
      refine ⟨_, Runs.if_neg (by simp) ((modifyNode_runs node _).bind (Runs.pure _ _)), ?_,
        by simp⟩
      refine (Settled.refl h hended size).setNode ⟨rfl, rfl, rfl, rfl⟩ rfl rfl fun k hk => ?_
      rw [VolumeOn.bytes]
      by_cases hvalid : k < (v.nodes node).validSize
      · rw [if_pos (by simp only; omega), if_pos hvalid]
      · rw [if_neg (by simp only; omega), if_neg hvalid]

end Settle

/-! ## The whole of `exfat_truncate` -/

/-- The file with another size and the same bytes, with zeros behind its old end. -/
structure Resized (node : Nat) (cs cs' : List Nat) (size : Nat) (v v' : View) : Prop where
  file : File v' node cs'
  change : Change node (cs.toFinset ∪ v.free) v v'
  free_eq : v'.free ∪ cs'.toFinset = v.free ∪ cs.toFinset
  fresh : ∀ c ∈ cs', c ∉ v'.free
  size_eq : (v'.nodes node).size = size
  bytes : ∀ k < size, v'.bytes node cs' k = v.bytes node cs k

/-- `exfat_truncate` takes nodes that are in use only. -/
abbrev Node.InUse (node : Node) : Prop := ¬ (node.references = 0 ∧ node.parent.isSome = true)

section Truncate

variable {v v' : View} {node : Nat} {cs : List Nat} {size : Nat}

theorem File.size_le_limit (h : File v node cs) (hv : Mounted v) :
    (v.nodes node).size ≤ v.sb.sizeLimit := by
  have hle := h.chain.length_le
  have hcount := hv.sane.count_le
  have hsize := size_le_clusters v.sb (v.nodes node).size
  rw [← h.length_eq] at hsize
  exact hsize.trans (Nat.mul_le_mul_right _ (by omega))

theorem File.size_le (h : File v node cs) :
    (v.nodes node).size ≤ cs.length * v.sb.clusterSize := by
  rw [h.length_eq]
  exact size_le_clusters _ _

theorem Relaid.bytes_eq {cs' : List Nat} (h : Relaid node cs cs' v v') {k : Nat}
    (hfile : File v node cs) (hk : k < cs'.length * v.sb.clusterSize) :
    v'.bytes node cs' k = v.bytes node cs k := by
  rw [VolumeOn.bytes, VolumeOn.bytes, h.frame.relocated.validSize_eq]
  split
  · next hvalid =>
      have hle := hfile.valid_le
      have hsize := hfile.size_le
      exact h.content k (by omega) hk
  · rfl

theorem Resized.refl (hfile : File v node cs) (hfresh : ∀ c ∈ cs, c ∉ v.free) :
    Resized node cs cs (v.nodes node).size v v :=
  ⟨hfile, .refl _ _ _, rfl, hfresh, rfl, fun _ _ => rfl⟩

/-- What `exfat_truncate` does when the clusters suffice. -/
theorem truncate_runs (hv : Mounted v) (hfile : File v node cs)
    (hfresh : ∀ c ∈ cs, c ∉ v.free) (huse : (v.nodes node).InUse)
    (hlimit : size ≤ v.sb.sizeLimit)
    (hroom : v.sb.clustersFor size ≤ cs.length + v.free.card) (erase : Bool) :
    ∃ v' cs', Runs Shows v (truncate node size erase) 0 v' ∧
      Resized node cs cs' size v v' ∧
      (v'.nodes node).validSize = if (v.nodes node).size = size then
        (v.nodes node).validSize else if erase then size else
        min (v.nodes node).validSize size := by
  by_cases hsame : (v.nodes node).size = size
  · refine ⟨v, cs, get_runs fun d => ?_, ?_, by rw [if_pos hsame]⟩
    · exact (unlessBug_runs huse).bind (Runs.if_pos hsame (Runs.pure v _))
    · rw [← hsame]
      exact .refl hfile hfresh
  · obtain ⟨w, cs', hresize, hw, hlength⟩ := resize_runs hv hfile hfresh hroom
    have hsb := hw.frame.settings.sb_eq
    have hfits : size ≤ cs'.length * w.sb.clusterSize := by
      rw [hlength, hsb]
      exact size_le_clusters _ _
    obtain ⟨u, hset, hu, hvalid⟩ := setValidSize_runs (hw.frame.settings.mounted hv)
      hw.chain hw.ended hfits erase
    rw [hsb] at hfits
    have hsub : cs'.toFinset ⊆ cs.toFinset ∪ v.free := by
      rw [Finset.union_comm, ← hw.free_eq]
      exact Finset.subset_union_right
    let last := { u.nodes node with mtime := time, isDirty := true, size := size }
    have hfree : (u.setNode node last).free = w.free := hu.free_eq
    have hc1 : v.sb.bytes2clusters (v.nodes node).size = cs.length := by
      rw [bytes2clusters_eq hv.sane (hfile.size_le_limit hv), hfile.length_eq]
    have hc2 := bytes2clusters_eq hv.sane hlimit
    refine ⟨u.setNode node last, cs', get_runs fun d => ?_, ⟨⟨?_, ?_, ?_, ?_⟩, ?_, ?_, ?_, ?_, ?_⟩,
      ?_⟩
    · refine (unlessBug_runs huse).bind (Runs.if_neg hsame ?_)
      dsimp only
      rw [hc1, hc2]
      have hsize := modifyNode_runs (v := u.setNode node
        { u.nodes node with mtime := time, isDirty := true }) node
          fun n => { n with size := size, isDirty := true }
      rw [VolumeOn.setNode_nodes_self, VolumeOn.setNode_setNode] at hsize
      refine hresize.bind (Runs.if_neg (by simp) (hset.bind (Runs.if_neg (by simp) ?_)))
      exact (modifyNode_runs node _).bind (hsize.bind (Runs.pure _ _))
    · exact hu.chain.congr (by simp [last]; exact ⟨rfl, rfl, rfl, rfl⟩) (fun _ _ => rfl) rfl
    · exact hu.ended.congr (by simp [last]; exact ⟨rfl, rfl, rfl, rfl⟩) fun _ _ => rfl
    · rw [hlength, VolumeOn.setNode_nodes_self, VolumeOn.setNode_sb,
        hu.change.settings.sb_eq, hsb]
    · rw [VolumeOn.setNode_nodes_self, hvalid]
      show (if erase = true then size else min _ size) ≤ size
      split <;> omega
    · exact (Change.of_frame hw.frame).trans
        ((hu.change.mono hsub).trans (Change.setNode rfl))
    · rw [hfree, hw.free_eq]
    · rw [hfree]
      exact hw.fresh
    · simp [last]
    · intro k hk
      rw [← hw.bytes_eq hfile (by omega), ← hu.bytes k hk, VolumeOn.bytes,
        VolumeOn.setNode_nodes_self]
      rfl
    · rw [if_neg hsame, VolumeOn.setNode_nodes_self, ← hw.frame.relocated.validSize_eq]
      exact hvalid

/-- When they do not, the file is the same as before. -/
theorem truncate_fails (hv : Mounted v) (hfile : File v node cs)
    (hfresh : ∀ c ∈ cs, c ∉ v.free) (huse : (v.nodes node).InUse)
    (hlimit : size ≤ v.sb.sizeLimit)
    (hroom : cs.length + v.free.card < v.sb.clustersFor size) (erase : Bool) :
    ∃ v', Runs Shows v (truncate node size erase) (-enospc) v' ∧
      Resized node cs cs (v.nodes node).size v v' ∧
      (v'.nodes node).validSize = (v.nodes node).validSize := by
  have hsame : (v.nodes node).size ≠ size := by
    rintro rfl
    rw [← hfile.length_eq] at hroom
    omega
  obtain ⟨w, hresize, hw⟩ := resize_fails hv hfile hfresh hroom
  have hc1 : v.sb.bytes2clusters (v.nodes node).size = cs.length := by
    rw [bytes2clusters_eq hv.sane (hfile.size_le_limit hv), hfile.length_eq]
  have hc2 := bytes2clusters_eq hv.sane hlimit
  have hkept := hw.frame.relocated
  refine ⟨w, get_runs fun d => ?_, ⟨⟨hw.chain, hw.ended, ?_, ?_⟩, .of_frame hw.frame,
    hw.free_eq, hw.fresh, hkept.size_eq, ?_⟩, hkept.validSize_eq⟩
  · refine (unlessBug_runs huse).bind (Runs.if_neg hsame ?_)
    dsimp only
    rw [hc1, hc2]
    exact hresize.bind (Runs.if_pos (by decide) (Runs.pure _ _))
  · rw [hkept.size_eq, hw.frame.settings.sb_eq, hfile.length_eq]
  · rw [hkept.size_eq, hkept.validSize_eq]
    exact hfile.valid_le
  · intro k hk
    have hsize := hfile.size_le
    exact hw.bytes_eq hfile (by omega)

end Truncate

end EntropyOS.Libexfat
