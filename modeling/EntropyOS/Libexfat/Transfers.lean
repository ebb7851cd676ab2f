import EntropyOS.Libexfat.Files

/-!
# Reading and writing a file

`exfat_generic_pread` returns the bytes of the file that are asked for and there,
and `exfat_generic_pwrite` makes the file long enough and puts its bytes there.
-/

namespace EntropyOS.Libexfat

open EntropyOS.Foundation

section Reading

variable {v v' : View} {node : Nat} {cs : List Nat}

structure Kept (node : Nat) (cs : List Nat) (v v' : View) : Prop where
  resized : Resized node cs cs (v.nodes node).size v v'
  valid_eq : (v'.nodes node).validSize = (v.nodes node).validSize

theorem Kept.refl (hfile : File v node cs) (hfresh : ∀ c ∈ cs, c ∉ v.free) :
    Kept node cs v v :=
  ⟨.refl hfile hfresh, rfl⟩

theorem File.setNode (hfile : File v node cs) {node' : Node}
    (hchain : Chain (v.setNode node node') node cs)
    (hcontiguous : node'.isContiguous = (v.nodes node).isContiguous)
    (hsize : node'.size = (v.nodes node).size)
    (hvalid : node'.validSize ≤ node'.size) : File (v.setNode node node') node cs where
  chain := hchain
  ended hcase := by
    rw [VolumeOn.setNode_nodes_self, hcontiguous] at hcase
    exact hfile.ended hcase
  length_eq := by simpa [hsize] using hfile.length_eq
  valid_le := by simpa using hvalid

theorem Kept.setNode (hfile : File v node cs) (hfresh : ∀ c ∈ cs, c ∉ v.free)
    {node' : Node} (hchain : Chain (v.setNode node node') node cs)
    (hcontiguous : node'.isContiguous = (v.nodes node).isContiguous)
    (hidentity : (v.nodes node).SameIdentity node')
    (hsize : node'.size = (v.nodes node).size)
    (hvalid : node'.validSize = (v.nodes node).validSize) :
    Kept node cs v (v.setNode node node') := by
  have hle := hfile.valid_le
  refine ⟨⟨hfile.setNode hchain hcontiguous hsize (by rwa [hvalid, hsize]),
    Change.setNode hidentity, rfl, hfresh, by simpa using hsize, fun k _ => ?_⟩,
    by simpa using hvalid⟩
  rw [VolumeOn.bytes, VolumeOn.setNode_nodes_self, hvalid]
  rfl

def Node.Noted (node node' : Node) : Prop :=
  node' = { node with
    mtime := node'.mtime
    atime := node'.atime
    isDirty := node'.isDirty }

theorem noteAccess_runs (v : View) (node : Nat) :
    ∃ node', Runs Shows v (noteAccess node) () (v.setNode node node') ∧
      (v.nodes node).Noted node' := by
  by_cases hnote : ¬ (v.nodes node).IsDir ∧ ¬ v.ro ∧ ¬ v.noatime
  · exact ⟨_, get_runs fun d => Runs.if_pos hnote (modifyNode_runs node _), rfl⟩
  · refine ⟨v.nodes node, get_runs fun d => Runs.if_neg hnote ?_, rfl⟩
    rw [VolumeOn.setNode_self]
    exact Runs.pure v ()

theorem noteChange_runs (v : View) (node : Nat) :
    ∃ node', Runs Shows v (noteChange node) () (v.setNode node node') ∧
      (v.nodes node).Noted node' := by
  by_cases hdir : (v.nodes node).IsDir
  · refine ⟨v.nodes node, (getNode_runs node).bind (Runs.if_neg (by simpa using hdir) ?_), rfl⟩
    rw [VolumeOn.setNode_self]
    exact Runs.pure v ()
  · exact ⟨_, (getNode_runs node).bind (Runs.if_pos hdir (modifyNode_runs node _)), rfl⟩

/-- A part of the file that lies within the valid size. -/
theorem preadValid_runs (hv : Mounted v) (hfile : File v node cs)
    (hfresh : ∀ c ∈ cs, c ∉ v.free) (buffer : Buf) {size offset : Nat} (hpos : 0 < size)
    (hend : offset + size ≤ (v.nodes node).validSize) :
    ∃ v', Runs Shows v (preadValid node buffer size offset)
        (size, buffer.overlay 0 size fun k => v.bytes node cs (offset + k)) v' ∧
      Kept node cs v v' := by
  have h := hfile.chain
  have hvalid := hfile.valid_le
  have hsize := hfile.size_le
  let i := offset / v.sb.clusterSize
  have hi : i < cs.length := by
    refine Nat.div_lt_of_lt_mul ?_
    rw [Nat.mul_comm]
    omega
  have hindex : u32 (offset / v.sb.clusterSize) = i := u32_of_lt (by
    have hle := h.length_le
    have hcount := hv.sane.count_le
    omega)
  have hsplit : i * v.sb.clusterSize + offset % v.sb.clusterSize = offset := by
    rw [Nat.mul_comm]
    exact Nat.div_add_mod _ _
  let w := v.point node i cs[i]
  have hpoint : v.SameSettings w := ⟨rfl, fun _ => rfl⟩
  have hw : Mounted w := hpoint.mounted hv
  have hchain : Chain w node cs := h.point hi
  have hloop := preadLoop_runs hw hchain size 0 i _ _ buffer
    (Nat.mod_lt offset w.sb.clusterSize_pos)
    (fun _ => List.getElem?_eq_getElem hi) (by
      show i * v.sb.clusterSize + offset % v.sb.clusterSize + size ≤
        cs.length * v.sb.clusterSize
      omega)
  have hbytes : Buf.overlay buffer 0 size (fun k => w.content cs
        (i * w.sb.clusterSize + offset % w.sb.clusterSize + k)) =
      buffer.overlay 0 size fun k => v.bytes node cs (offset + k) := by
    refine Buf.overlay_congr fun k hk => ?_
    rw [VolumeOn.point_sb, hsplit, VolumeOn.bytes, if_pos (by omega)]
    rfl
  obtain ⟨node', hnote, hnoted⟩ := noteAccess_runs w node
  have hcount : min size ((w.nodes node).size - offset) = size := by
    have hsame : (w.nodes node).size = (v.nodes node).size := by simp [w, VolumeOn.point]
    rw [hsame]
    omega
  have hstate : w.setNode node node' = v.setNode node node' := v.setNode_setNode _ _ _
  rw [Node.Noted] at hnoted
  refine ⟨v.setNode node node', get_runs fun d => ?_, ?_⟩
  · dsimp only
    rw [hindex]
    refine (advanceCluster_runs hv.sane h hi).bind (Runs.if_neg ?_ ?_)
    · simpa using h.valid _ (List.getElem_mem hi)
    · refine (getNode_runs node).bind ?_
      rw [hcount]
      rw [hbytes] at hloop
      rw [hstate] at hnote
      exact hloop.bind (Runs.if_neg (by simp) (hnote.bind (Runs.pure _ _)))
  · refine .setNode hfile hfresh ?_ ?_ ?_ ?_ ?_
    · rw [← hstate]
      refine hchain.congr ?_ (fun _ _ => rfl) rfl
      rw [VolumeOn.setNode_nodes_self, hnoted]
      exact ⟨rfl, rfl, rfl, rfl⟩
    · rw [hnoted]
      simp [w]
    · rw [hnoted]
      simp [w, VolumeOn.point]
      rfl
    · rw [hnoted]
      simp [w, VolumeOn.point]
    · rw [hnoted]
      simp [w, VolumeOn.point]

theorem preadHead_runs (hv : Mounted v) (hfile : File v node cs)
    (hfresh : ∀ c ∈ cs, c ∉ v.free) (buffer : Buf) (offset : Nat) :
    ∃ v', Runs Shows v (preadHead node buffer offset (v.nodes node).validSize)
        (((v.nodes node).validSize - offset : Nat),
          buffer.overlay 0 ((v.nodes node).validSize - offset)
            fun k => v.bytes node cs (offset + k)) v' ∧
      Kept node cs v v' := by
  by_cases hhead : offset < (v.nodes node).validSize
  · obtain ⟨v', hrun, hkept⟩ := preadValid_runs hv hfile hfresh buffer
      (show 0 < (v.nodes node).validSize - offset by omega)
      (show offset + _ ≤ (v.nodes node).validSize by omega)
    exact ⟨v', Runs.if_pos hhead hrun, hkept⟩
  · refine ⟨v, Runs.if_neg hhead ?_, .refl hfile hfresh⟩
    rw [show (v.nodes node).validSize - offset = 0 by omega, Buf.overlay_zero]
    exact Runs.pure v _

/--
What `exfat_generic_pread` returns: the bytes of the file that are asked for, as far
as there are any, and nothing is stored behind the buffer.
-/
theorem genericPread_runs (hv : Mounted v) (hfile : File v node cs)
    (hfresh : ∀ c ∈ cs, c ∉ v.free) (buffer : Buf) {size offset : Nat}
    (hend : offset + size < 18446744073709551616) :
    ∃ v' buffer', Runs Shows v (genericPread node buffer size offset)
        ((min size ((v.nodes node).size - offset) : Nat), buffer') v' ∧
      Kept node cs v v' ∧
      (∀ k < min size ((v.nodes node).size - offset),
        buffer' k = v.bytes node cs (offset + k)) ∧
      ∀ k, size ≤ k → buffer' k = buffer k := by
  have hvalid := hfile.valid_le
  have hsum : u64 (offset + size) = offset + size := Nat.mod_eq_of_lt hend
  have hbind := getNode_runs (v := v) node
  by_cases hbehind : offset ≥ (v.nodes node).size
  · refine ⟨v, buffer, hbind.bind (Runs.if_neg (by omega) (Runs.if_pos hbehind ?_)),
      .refl hfile hfresh, fun k hk => by omega, fun _ _ => rfl⟩
    rw [show min size ((v.nodes node).size - offset) = 0 by omega]
    exact Runs.pure v _
  by_cases hempty : size = 0
  · refine ⟨v, buffer, hbind.bind (Runs.if_neg (by omega) (Runs.if_neg hbehind
      (Runs.if_pos hempty ?_))), .refl hfile hfresh, fun k hk => by omega, fun _ _ => rfl⟩
    rw [show min size ((v.nodes node).size - offset) = 0 by omega]
    exact Runs.pure v _
  by_cases hpast : offset + size > (v.nodes node).validSize
  · obtain ⟨v', hrun, hkept⟩ := preadHead_runs hv hfile hfresh buffer offset
    let head := (v.nodes node).validSize - offset
    let zeros := min (size - head) ((v.nodes node).size - (v.nodes node).validSize)
    refine ⟨v', (buffer.overlay 0 head fun k => v.bytes node cs (offset + k)).overlay head zeros
      fun _ => 0, ?_, hkept, ?_, ?_⟩
    · refine hbind.bind (Runs.if_neg (by omega) (Runs.if_neg hbehind (Runs.if_neg hempty ?_)))
      refine Runs.if_pos (by simpa [hsum] using hpast) (hbind.bind (hrun.bind ?_))
      refine Runs.if_neg (by simp) ((getNode_runs node).bind ?_)
      rw [hkept.resized.size_eq, hkept.valid_eq, Int.toNat_natCast]
      exact Runs.pure v' _
    · intro k hk
      simp only [Buf.overlay, head, zeros]
      by_cases hfirst : k < (v.nodes node).validSize - offset
      · rw [if_neg (by omega), if_pos (by omega), Nat.sub_zero]
      · rw [if_pos (by omega), VolumeOn.bytes, if_neg (by omega)]
    · intro k hk
      simp only [Buf.overlay, head, zeros]
      rw [if_neg (by omega), if_neg (by omega)]
  · obtain ⟨v', hrun, hkept⟩ := preadValid_runs hv hfile hfresh buffer
      (Nat.pos_of_ne_zero hempty)
      (show offset + size ≤ (v.nodes node).validSize by omega)
    have hall : min size ((v.nodes node).size - offset) = size := by omega
    refine ⟨v', buffer.overlay 0 size fun k => v.bytes node cs (offset + k), ?_, hkept, ?_, ?_⟩
    · rw [hall]
      refine hbind.bind (Runs.if_neg (by omega) (Runs.if_neg hbehind (Runs.if_neg hempty ?_)))
      exact Runs.if_neg (by simpa [hsum] using hpast) hrun
    · intro k hk
      simp only [Buf.overlay]
      rw [if_pos (by omega), Nat.sub_zero]
    · intro k hk
      exact if_neg (by omega)

end Reading

section Extending

variable {v v' v'' : View} {node : Nat} {cs cs' cs'' : List Nat} {size offset s s' : Nat}

theorem File.bytes_eq_zero (hfile : File v node cs) {k : Nat}
    (hk : (v.nodes node).size ≤ k) : v.bytes node cs k = 0 := by
  have hle := hfile.valid_le
  exact if_neg (by omega)

theorem Resized.trans (h : Resized node cs cs' s v v') (h' : Resized node cs' cs'' s' v' v'')
    (hfile : File v node cs) (hlonger : (v.nodes node).size ≤ s) :
    Resized node cs cs'' s' v v'' := by
  refine ⟨h'.file, h.change.trans (h'.change.mono ?_), h'.free_eq.trans h.free_eq, h'.fresh,
    h'.size_eq, fun k hk => ?_⟩
  · rw [Finset.union_comm, h.free_eq, Finset.union_comm]
  · rw [h'.bytes k hk]
    by_cases hold : k < s
    · exact h.bytes k hold
    · rw [h.file.bytes_eq_zero (by rw [h.size_eq]; omega), hfile.bytes_eq_zero (by omega)]

theorem card_eq_of_exchange (hnodup : cs.Nodup) (hfresh : ∀ c ∈ cs, c ∉ v.free)
    (hnodup' : cs'.Nodup) (hfresh' : ∀ c ∈ cs', c ∉ v'.free)
    (hfree : v'.free ∪ cs'.toFinset = v.free ∪ cs.toFinset) :
    cs'.length + v'.free.card = cs.length + v.free.card := by
  have hcard : ∀ {ds : List Nat} {w : View}, ds.Nodup → (∀ c ∈ ds, c ∉ w.free) →
      (w.free ∪ ds.toFinset).card = w.free.card + ds.length := by
    intro ds w hds hnew
    rw [Finset.card_union_of_disjoint, List.toFinset_card_of_nodup hds]
    refine Finset.disjoint_left.mpr fun c hc hmem => ?_
    exact hnew c (List.mem_toFinset.mp hmem) hc
  have hafter := hcard hnodup' hfresh'
  rw [hfree, hcard hnodup hfresh] at hafter
  omega

theorem Resized.card_eq (h : Resized node cs cs' s v v') (hchain : Chain v node cs)
    (hfresh : ∀ c ∈ cs, c ∉ v.free) :
    cs'.length + v'.free.card = cs.length + v.free.card :=
  card_eq_of_exchange hchain.nodup hfresh h.file.chain.nodup h.fresh h.free_eq

/-- The size and the valid size of a file that was made long enough for a write. -/
structure Extended (node : Nat) (cs cs' : List Nat) (offset size : Nat) (v v' : View) :
    Prop where
  resized : Resized node cs cs' size v v'
  valid_eq : (v'.nodes node).validSize =
    if (v.nodes node).size < offset then offset else (v.nodes node).validSize

theorem Extended.refl (hfile : File v node cs) (hfresh : ∀ c ∈ cs, c ∉ v.free)
    (hwithin : offset ≤ (v.nodes node).size) :
    Extended node cs cs offset (v.nodes node).size v v :=
  ⟨.refl hfile hfresh, by rw [if_neg (by omega)]⟩

theorem extendTo_runs (hv : Mounted v) (hfile : File v node cs)
    (hfresh : ∀ c ∈ cs, c ∉ v.free) (huse : (v.nodes node).InUse)
    (hlimit : offset ≤ v.sb.sizeLimit)
    (hroom : v.sb.clustersFor offset ≤ cs.length + v.free.card) :
    ∃ v' cs', Runs Shows v (extendTo node offset) 0 v' ∧
      Extended node cs cs' offset (max (v.nodes node).size offset) v v' := by
  by_cases hpast : (v.nodes node).size < offset
  · obtain ⟨v', cs', hrun, hresized, hvalid⟩ :=
      truncate_runs hv hfile hfresh huse hlimit hroom true
    refine ⟨v', cs', (getNode_runs node).bind (Runs.if_pos hpast hrun), ?_⟩
    rw [Nat.max_eq_right hpast.le]
    refine ⟨hresized, ?_⟩
    rw [hvalid, if_neg (by omega), if_pos rfl, if_pos hpast]
  · refine ⟨v, cs, (getNode_runs node).bind (Runs.if_neg hpast (Runs.pure v _)), ?_⟩
    rw [Nat.max_eq_left (by omega)]
    exact .refl hfile hfresh (by omega)

theorem extendFor_runs (hv : Mounted v) (hfile : File v node cs)
    (hfresh : ∀ c ∈ cs, c ∉ v.free) (huse : (v.nodes node).InUse)
    (hlimit : size ≤ v.sb.sizeLimit)
    (hroom : v.sb.clustersFor size ≤ cs.length + v.free.card) :
    ∃ v' cs', Runs Shows v (extendFor node size) 0 v' ∧
      Resized node cs cs' (max (v.nodes node).size size) v v' ∧
      (v'.nodes node).validSize = (v.nodes node).validSize := by
  have hle := hfile.valid_le
  by_cases hpast : (v.nodes node).size < size
  · obtain ⟨v', cs', hrun, hresized, hvalid⟩ :=
      truncate_runs hv hfile hfresh huse hlimit hroom false
    refine ⟨v', cs', (getNode_runs node).bind (Runs.if_pos hpast hrun), ?_, ?_⟩
    · rwa [Nat.max_eq_right hpast.le]
    · rw [hvalid, if_neg (by omega), if_neg (by simp)]
      omega
  · refine ⟨v, cs, (getNode_runs node).bind (Runs.if_neg hpast (Runs.pure v _)), ?_, rfl⟩
    rw [Nat.max_eq_left (by omega)]
    exact .refl hfile hfresh

theorem sizeLimit_lt (hsb : v.sb.Sane) : v.sb.sizeLimit < 18446744073709551616 := by
  have hle := hsb.clusterSize_le
  rw [SuperBlock.sizeLimit]
  omega

theorem extend_runs (hv : Mounted v) (hfile : File v node cs)
    (hfresh : ∀ c ∈ cs, c ∉ v.free) (huse : (v.nodes node).InUse)
    (hlimit : offset + size ≤ v.sb.sizeLimit)
    (hroom : v.sb.clustersFor (offset + size) ≤ cs.length + v.free.card) :
    ∃ v' cs', Runs Shows v (extend node size offset) 0 v' ∧
      Extended node cs cs' offset (max (v.nodes node).size (offset + size)) v v' := by
  have hsum : u64 (offset + size) = offset + size :=
    Nat.mod_eq_of_lt (by have := sizeLimit_lt hv.sane; omega)
  obtain ⟨w, cs', hfirst, hw, hvalid⟩ := extendTo_runs hv hfile hfresh huse
    (by omega) ((clustersFor_mono v.sb (Nat.le_add_right offset size)).trans hroom)
  have hsb := hw.change.settings.sb_eq
  have hidentity := hw.change.identity
  have hcard := hw.card_eq hfile.chain hfresh
  have hlimit' : offset + size ≤ w.sb.sizeLimit := by rwa [hsb]
  obtain ⟨v', cs'', hsecond, hv', hvalid'⟩ := extendFor_runs
    (hw.change.settings.mounted hv) hw.file hw.fresh
    (by rwa [Node.InUse, hidentity.references_eq, hidentity.parent_eq])
    hlimit' (by rwa [hsb, hcard])
  refine ⟨v', cs'', hfirst.bind (Runs.if_neg (by simp) ?_), ?_, hvalid'.trans hvalid⟩
  · rwa [hsum]
  · have hall := hw.trans hv' hfile (Nat.le_max_left _ _)
    rwa [hw.size_eq, Nat.max_assoc, Nat.max_eq_right (Nat.le_add_right offset size)] at hall

/-- A size that needs more clusters than the file has and there are free is larger. -/
theorem File.size_lt (hfile : File v node cs)
    (hroom : cs.length + v.free.card < v.sb.clustersFor size) :
    (v.nodes node).size < size := by
  by_contra hle
  have hmono := clustersFor_mono v.sb (show size ≤ (v.nodes node).size by omega)
  rw [← hfile.length_eq] at hmono
  omega

/-- How far the file reaches when there is no room for the whole write. -/
def reached (v : View) (node : Nat) (cs : List Nat) (offset : Nat) : Nat :=
  if v.sb.clustersFor offset ≤ cs.length + v.free.card then
    max (v.nodes node).size offset
  else
    (v.nodes node).size

theorem extend_fails (hv : Mounted v) (hfile : File v node cs)
    (hfresh : ∀ c ∈ cs, c ∉ v.free) (huse : (v.nodes node).InUse)
    (hlimit : offset + size ≤ v.sb.sizeLimit)
    (hroom : cs.length + v.free.card < v.sb.clustersFor (offset + size)) :
    ∃ v' cs', Runs Shows v (extend node size offset) (-enospc) v' ∧
      Resized node cs cs' (reached v node cs offset) v v' ∧
      (v'.nodes node).validSize = if (v.nodes node).size < reached v node cs offset then
        offset else (v.nodes node).validSize := by
  have hsum : u64 (offset + size) = offset + size :=
    Nat.mod_eq_of_lt (by have := sizeLimit_lt hv.sane; omega)
  by_cases hfits : v.sb.clustersFor offset ≤ cs.length + v.free.card
  · obtain ⟨w, cs', hfirst, hw, hvalid⟩ :=
      extendTo_runs hv hfile hfresh huse (by omega) hfits
    have hsb := hw.change.settings.sb_eq
    have hidentity := hw.change.identity
    have hroom' : cs'.length + w.free.card < w.sb.clustersFor (offset + size) := by
      rwa [hsb, hw.card_eq hfile.chain hfresh]
    obtain ⟨v', hsecond, hv', hvalid'⟩ := truncate_fails
      (hw.change.settings.mounted hv) hw.file hw.fresh
      (by rwa [Node.InUse, hidentity.references_eq, hidentity.parent_eq])
      (by rwa [hsb]) hroom' false
    have hpast := hw.file.size_lt hroom'
    refine ⟨v', cs', hfirst.bind (Runs.if_neg (by simp) ?_), ?_, ?_⟩
    · rw [hsum]
      exact (getNode_runs node).bind (Runs.if_pos hpast hsecond)
    · rw [hw.size_eq] at hv'
      rw [reached, if_pos hfits]
      exact hw.trans hv' hfile (Nat.le_max_left _ _)
    · rw [hvalid', hvalid, reached, if_pos hfits]
      simp
  · have hmore : cs.length + v.free.card < v.sb.clustersFor offset := by omega
    obtain ⟨v', hfirst, hv', hvalid'⟩ := truncate_fails
      hv hfile hfresh huse (by omega) hmore true
    have hpast := hfile.size_lt hmore
    refine ⟨v', cs, ?_, ?_, ?_⟩
    · refine Runs.bind ((getNode_runs node).bind (Runs.if_pos hpast hfirst)) ?_
      exact Runs.if_pos (by decide) (Runs.pure v' _)
    · rwa [reached, if_neg hfits]
    · rw [hvalid', reached, if_neg hfits, if_neg (by omega)]

end Extending

section Writing

variable {v v' : View} {node : Nat} {cs cs' : List Nat} {size offset : Nat} {buffer : Buf}

/-- The file with the bytes of the buffer in their place. -/
structure Written (node : Nat) (cs cs' : List Nat) (offset size : Nat) (buffer : Buf)
    (v v' : View) : Prop where
  file : File v' node cs'
  change : Change node (cs.toFinset ∪ v.free) v v'
  free_eq : v'.free ∪ cs'.toFinset = v.free ∪ cs.toFinset
  fresh : ∀ c ∈ cs', c ∉ v'.free
  size_eq : (v'.nodes node).size = max (v.nodes node).size (offset + size)
  valid_eq : (v'.nodes node).validSize =
    max (if (v.nodes node).size < offset then offset else (v.nodes node).validSize)
      (if size = 0 then 0 else offset + size)
  bytes : ∀ k < max (v.nodes node).size (offset + size),
    v'.bytes node cs' k = (v.bytes node cs).overlay offset size buffer k

theorem Extended.written (h : Extended node cs cs' offset
      (max (v.nodes node).size (offset + 0)) v v') :
    Written node cs cs' offset 0 buffer v v' := by
  obtain ⟨⟨hfile, hchange, hfree, hfresh, hsize, hbytes⟩, hvalid⟩ := h
  refine ⟨hfile, hchange, hfree, hfresh, hsize, ?_, fun k hk => ?_⟩
  · rw [hvalid, if_pos rfl, Nat.max_eq_left (Nat.zero_le _)]
  · rw [Buf.overlay_zero]
    exact hbytes k hk

/-- The bytes are stored in a file that is long enough and written up to their place. -/
theorem pwriteWithin_runs (hv : Mounted v) (hfile : File v node cs)
    (hfresh : ∀ c ∈ cs, c ∉ v.free) (hpos : 0 < size)
    (hwhere : offset ≤ (v.nodes node).validSize)
    (hend : offset + size ≤ (v.nodes node).size) (buffer : Buf) :
    ∃ v', Runs Shows v (pwriteWithin node buffer size offset) size v' ∧
      Written node cs cs offset size buffer v v' := by
  have h := hfile.chain
  have hvalid := hfile.valid_le
  have hsize := hfile.size_le
  let i := offset / v.sb.clusterSize
  have hi : i < cs.length := by
    refine Nat.div_lt_of_lt_mul ?_
    rw [Nat.mul_comm]
    omega
  have hindex : u32 (offset / v.sb.clusterSize) = i := u32_of_lt (by
    have hle := h.length_le
    have hcount := hv.sane.count_le
    omega)
  have hsplit : i * v.sb.clusterSize + offset % v.sb.clusterSize = offset := by
    rw [Nat.mul_comm]
    exact Nat.div_add_mod _ _
  let w := v.point node i cs[i]
  have hpoint : v.SameSettings w := ⟨rfl, fun _ => rfl⟩
  have hw : Mounted w := hpoint.mounted hv
  have hchain : Chain w node cs := h.point hi
  obtain ⟨u, hloop, hu, hnodes⟩ := pwriteLoop_runs size i _ (offset + size) _
    buffer hw hchain (Nat.mod_lt offset w.sb.clusterSize_pos)
    (fun _ => List.getElem?_eq_getElem hi) (by
      show i * v.sb.clusterSize + offset % v.sb.clusterSize + size ≤
        cs.length * v.sb.clusterSize
      omega)
  have hnode : u.nodes node = { v.nodes node with
      fptrIndex := i
      fptrCluster := cs[i]
      validSize := max (v.nodes node).validSize (offset + size) } := by
    rw [hnodes, Function.update_self, if_neg (by omega)]
    simp [w, VolumeOn.point]
  obtain ⟨node', hnote, hnoted⟩ := noteChange_runs u node
  rw [Node.Noted, hnode] at hnoted
  have hlink : ∀ c ∈ cs, u.link c = w.link c := fun c hc =>
    hu.link_eq hw.sane (h.valid c hc)
  have hplace : (w.nodes node).SamePlace node' := by
    rw [hnoted]
    simp only [w, VolumeOn.point, VolumeOn.setNode_nodes_self]
    exact ⟨rfl, rfl, rfl, rfl⟩
  have hplace' : (w.nodes node).SamePlace ((u.setNode node node').nodes node) := by
    rwa [VolumeOn.setNode_nodes_self]
  have hsum : u64 (offset + size) = offset + size := Nat.mod_eq_of_lt (by
    have hlimit := hfile.size_le_limit hv
    have hlt := sizeLimit_lt hv.sane
    omega)
  have hnewSize : node'.size = (v.nodes node).size := by rw [hnoted]
  have hnewValid : node'.validSize = max (v.nodes node).validSize (offset + size) := by
    rw [hnoted]
  have hfree : (u.setNode node node').free = v.free := hu.free_eq
  refine ⟨u.setNode node node', get_runs fun d => ?_, ⟨⟨?_, ?_, ?_, ?_⟩, ?_, ?_, ?_, ?_, ?_, ?_⟩⟩
  · dsimp only
    rw [hindex, hsum]
    refine (advanceCluster_runs hv.sane h hi).bind (Runs.if_neg ?_ ?_)
    · simpa using h.valid _ (List.getElem_mem hi)
    · exact hloop.bind (Runs.if_neg (by simp) (hnote.bind (Runs.pure _ _)))
  · exact hchain.congr hplace' hlink hu.settings.sb_eq
  · refine Ended.congr (v := w) ?_ hplace' hlink
    simpa [w, Ended, VolumeOn.link, VolumeOn.point] using hfile.ended
  · rw [VolumeOn.setNode_nodes_self, hnewSize, VolumeOn.setNode_sb, hu.settings.sb_eq]
    exact hfile.length_eq
  · rw [VolumeOn.setNode_nodes_self, hnewSize, hnewValid]
    omega
  · have hpoint : Change node cs.toFinset v w := Change.setNode rfl
    have hstored : Change node cs.toFinset w u := by
      refine .of_overlaid hu ?_ fun m hm => ?_
      · rw [hnode]
        simp only [w, VolumeOn.point, VolumeOn.setNode_nodes_self]
        rfl
      · rw [hnodes, Function.update_of_ne hm]
    have hnote' : Change node cs.toFinset u (u.setNode node node') := by
      refine Change.setNode ?_
      rw [hnode, hnoted]
      rfl
    exact (hpoint.trans (hstored.trans hnote')).mono Finset.subset_union_left
  · rw [hfree]
  · rw [hfree]
    exact hfresh
  · rw [VolumeOn.setNode_nodes_self, hnewSize]
    omega
  · rw [VolumeOn.setNode_nodes_self, hnewValid, if_neg (by omega), if_neg (by omega)]
  · intro k hk
    have hcontent := hu.content k (show k < cs.length * v.sb.clusterSize by omega)
    rw [VolumeOn.point_sb, hsplit] at hcontent
    have hbytes : (u.setNode node node').bytes node cs k =
        if k < node'.validSize then u.content cs k else 0 := by
      rw [VolumeOn.bytes, VolumeOn.setNode_nodes_self]
      rfl
    rw [hbytes, hnewValid, hcontent, Buf.overlay, Buf.overlay, VolumeOn.bytes]
    by_cases hin : offset ≤ k ∧ k < offset + size
    · rw [if_pos (by omega), if_pos hin, if_pos hin]
    · rw [if_neg hin, if_neg hin]
      by_cases hold : k < (v.nodes node).validSize
      · rw [if_pos (by omega), if_pos hold]
        rfl
      · rw [if_neg (by omega), if_neg hold]

/-- A write after the file was made long enough for it. -/
theorem Extended.trans_written {w : View} (hw : Extended node cs cs' offset
      (max (v.nodes node).size (offset + size)) v w)
    (hpos : 0 < size) (h : Written node cs' cs' offset size buffer w v') :
    Written node cs cs' offset size buffer v v' := by
  obtain ⟨hresized, hvalid⟩ := hw
  have hsize := hresized.size_eq
  refine ⟨h.file, hresized.change.trans (h.change.mono ?_), h.free_eq.trans hresized.free_eq,
    h.fresh, ?_, ?_, fun k hk => ?_⟩
  · rw [Finset.union_comm, hresized.free_eq, Finset.union_comm]
  · rw [h.size_eq, hsize]
    omega
  · rw [h.valid_eq, hvalid, hsize, if_neg (show ¬ max _ (offset + size) < offset by omega)]
  · rw [h.bytes k (by rw [hsize]; omega)]
    simp only [Buf.overlay]
    split
    · rfl
    · exact hresized.bytes k hk

/--
What `exfat_generic_pwrite` does when the clusters suffice, for a write that starts in
the part of the file that was written before, or behind its end.
-/
theorem genericPwrite_runs (hv : Mounted v) (hfile : File v node cs)
    (hfresh : ∀ c ∈ cs, c ∉ v.free) (huse : (v.nodes node).InUse)
    (hwhere : offset ≤ (v.nodes node).validSize ∨ (v.nodes node).size < offset)
    (hlimit : offset + size ≤ v.sb.sizeLimit)
    (hroom : v.sb.clustersFor (offset + size) ≤ cs.length + v.free.card) (buffer : Buf) :
    ∃ v' cs', Runs Shows v (genericPwrite node buffer size offset) size v' ∧
      Written node cs cs' offset size buffer v v' := by
  obtain ⟨w, cs', hextend, hw⟩ := extend_runs hv hfile hfresh huse hlimit hroom
  by_cases hempty : size = 0
  · subst hempty
    refine ⟨w, cs', Runs.if_neg (by omega) (hextend.bind (Runs.if_neg (by simp) ?_)),
      hw.written⟩
    exact Runs.if_pos rfl (Runs.pure w _)
  · have hresized := hw.resized
    have hsize := hresized.size_eq
    have hvalid := hw.valid_eq
    have hreached : offset ≤ (w.nodes node).validSize := by
      rw [hvalid]
      split <;> omega
    obtain ⟨v', hwrite, hv'⟩ := pwriteWithin_runs
      (hresized.change.settings.mounted hv) hresized.file hresized.fresh
      (Nat.pos_of_ne_zero hempty) hreached (by omega) buffer
    refine ⟨v', cs', Runs.if_neg (by omega) (hextend.bind (Runs.if_neg (by simp) ?_)),
      hw.trans_written (Nat.pos_of_ne_zero hempty) hv'⟩
    exact Runs.if_neg hempty hwrite

/-- When they do not, the file is as before, or has zeros up to the place of the write. -/
theorem genericPwrite_fails (hv : Mounted v) (hfile : File v node cs)
    (hfresh : ∀ c ∈ cs, c ∉ v.free) (huse : (v.nodes node).InUse)
    (hlimit : offset + size ≤ v.sb.sizeLimit)
    (hroom : cs.length + v.free.card < v.sb.clustersFor (offset + size)) (buffer : Buf) :
    ∃ v' cs', Runs Shows v (genericPwrite node buffer size offset) (-enospc) v' ∧
      Resized node cs cs' (reached v node cs offset) v v' ∧
      (v'.nodes node).validSize = if (v.nodes node).size < reached v node cs offset then
        offset else (v.nodes node).validSize := by
  obtain ⟨v', cs', hextend, hv', hvalid⟩ := extend_fails hv hfile hfresh huse hlimit hroom
  refine ⟨v', cs', Runs.if_neg (by omega) (hextend.bind ?_), hv', hvalid⟩
  exact Runs.if_pos (by decide) (Runs.pure v' _)

end Writing

end EntropyOS.Libexfat
