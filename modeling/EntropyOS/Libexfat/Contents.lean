import EntropyOS.Libexfat.Growing
import EntropyOS.Foundation.Blocks

/-!
# The bytes in the clusters of a file

The clusters of a file, one behind the other, are a text of bytes.  Reading a
file reads this text, and writing and erasing change it in one place.
-/

namespace EntropyOS.Libexfat

open EntropyOS.Foundation

def SuperBlock.InCluster (sb : SuperBlock) (cluster k : Nat) : Prop :=
  sb.clusterOffset cluster ≤ k ∧ k < sb.clusterOffset cluster + sb.clusterSize

def VolumeOn.content (v : View) (cs : List Nat) : Buf :=
  gather v.sb.clusterSize v.dev (cs.map v.sb.clusterOffset)

section Text

variable {v v' : View} {node : Nat} {cs : List Nat}

theorem Chain.apart (h : Chain v node cs) :
    Apart v.sb.clusterSize (cs.map v.sb.clusterOffset) := by
  rw [Apart, List.pairwise_map]
  refine h.nodup.imp_of_mem fun {a b} ha hb hne => ?_
  rcases Nat.lt_or_gt_of_ne hne with hlt | hlt
  · exact .inl (v.sb.clusterOffset_apart (h.valid a ha).1 hlt)
  · exact .inr (v.sb.clusterOffset_apart (h.valid b hb).1 hlt)

theorem content_congr (hsb : v'.sb = v.sb)
    (hdev : ∀ c ∈ cs, ∀ k, v.sb.InCluster c k → v'.dev k = v.dev k) {k : Nat}
    (hk : k < cs.length * v.sb.clusterSize) : v'.content cs k = v.content cs k := by
  rw [VolumeOn.content, VolumeOn.content, hsb]
  refine gather_congr ?_ (by simpa using hk)
  intro s hs j hj
  obtain ⟨c, hc, rfl⟩ := List.mem_map.mp hs
  exact hdev c hc _ ⟨by omega, by omega⟩

theorem content_append (more : List Nat) {k : Nat}
    (hk : k < cs.length * v.sb.clusterSize) :
    v.content (cs ++ more) k = v.content cs k := by
  rw [VolumeOn.content, VolumeOn.content, List.map_append]
  exact gather_append _ (by simpa using hk)

theorem content_mul_add {i r : Nat} (hi : i < cs.length) (hr : r < v.sb.clusterSize) :
    v.content cs (i * v.sb.clusterSize + r) = v.dev (v.sb.clusterOffset cs[i] + r) := by
  rw [VolumeOn.content, gather_mul_add (by simpa using hi) hr, List.getElem_map]

theorem inCluster_inj {sb : SuperBlock} {a b k : Nat} (ha : sb.Valid a) (hb : sb.Valid b)
    (hka : sb.InCluster a k) (hkb : sb.InCluster b k) : a = b := by
  by_contra hne
  simp only [SuperBlock.InCluster] at hka hkb
  rcases Nat.lt_or_gt_of_ne hne with hlt | hlt
  · have hapart := sb.clusterOffset_apart ha.1 hlt
    omega
  · have hapart := sb.clusterOffset_apart hb.1 hlt
    omega

theorem heapStart_le_of_inCluster {sb : SuperBlock} {c k : Nat} (h : sb.InCluster c k) :
    sb.heapStart ≤ k :=
  (Nat.le_add_right _ _).trans h.1

end Text

/-- What is left after the part of a transfer that lies in cluster number `i`. -/
structure Remains (size i offset count length remainder : Nat) : Prop where
  more : 0 < remainder - count → i + 1 < length ∧ (i + 1) * size = i * size + offset + count
  fits : (i + 1) * size + 0 + (remainder - count) ≤ length * size

theorem remains_of_min {size i offset length remainder : Nat} (hi : i < length)
    (hoffset : offset < size) (hend : i * size + offset + remainder ≤ length * size) :
    Remains size i offset (min (size - offset) remainder) length remainder := by
  have hnext : (i + 1) * size = i * size + size := Nat.succ_mul _ _
  have hle := Nat.mul_le_mul_right size (show i + 1 ≤ length from hi)
  refine ⟨fun hmore => ⟨?_, by omega⟩, by omega⟩
  by_contra hlast
  have hle := Nat.mul_le_mul_right size (show length ≤ i + 1 by omega)
  omega

/-! ## Reading -/

section Reading

variable {v : View} {node : Nat} {cs : List Nat}

/-- The buffer after a part of one cluster was read into it. -/
theorem buffer_eq {i offset filled count : Nat} (buffer : Buf) (hi : i < cs.length)
    (hcount : offset + count ≤ v.sb.clusterSize) :
    (fun k => if k < filled then buffer k
      else (Buf.overlay (fun k => buffer (filled + k)) 0 count
        fun k => v.dev (v.sb.clusterOffset cs[i] + offset + k)) (k - filled)) =
      buffer.overlay filled count
        fun k => v.content cs (i * v.sb.clusterSize + offset + k) := by
  funext k
  simp only [Buf.overlay]
  by_cases hbefore : k < filled
  · rw [if_pos hbefore, if_neg (by omega)]
  · by_cases hin : k < filled + count
    · rw [if_neg hbefore, if_pos (by omega), if_pos (by omega), Nat.add_assoc,
        Nat.add_assoc, content_mul_add hi (by omega)]
      rfl
    · rw [if_neg hbefore, if_neg (by omega), if_neg (by omega)]
      exact congrArg buffer (by omega)

/-- One cluster after the other is copied to the buffer. -/
theorem preadLoop_runs (hv : Mounted v) (h : Chain v node cs) (remainder : Nat) :
    ∀ (filled i offset cluster : Nat) (buffer : Buf) (hoffset : offset < v.sb.clusterSize),
      (0 < remainder → cs[i]? = some cluster) →
      i * v.sb.clusterSize + offset + remainder ≤ cs.length * v.sb.clusterSize →
      Runs Shows v
        (preadLoop node v.sb.clusterSize buffer filled cluster offset hoffset remainder)
        (0, buffer.overlay filled remainder
          fun k => v.content cs (i * v.sb.clusterSize + offset + k)) v := by
  induction remainder using Nat.strong_induction_on with
  | _ remainder ih =>
      intro filled i offset cluster buffer hoffset hcluster hend
      rw [preadLoop]
      by_cases hpos : remainder > 0
      · obtain ⟨hi, rfl⟩ := List.getElem?_eq_some_iff.mp (hcluster hpos)
        have hvalid := h.valid _ (List.getElem_mem hi)
        have hfits := hv.sane.clusterOffset_le hvalid
        refine Runs.if_pos hpos (get_runs fun d => Runs.if_neg (by simpa using hvalid) ?_)
        let lsize := min (v.sb.clusterSize - offset) remainder
        have hlsize : offset + lsize ≤ v.sb.clusterSize := by omega
        have haddress : u64 (v.sb.clusterOffset cs[i] + offset) =
            v.sb.clusterOffset cs[i] + offset := Nat.mod_eq_of_lt (by omega)
        have hread := pread_runs (v := v) (fun k => buffer (filled + k))
          (show v.sb.clusterOffset cs[i] + offset + lsize < 2 ^ 63 by omega)
        refine (c2o_runs hv.sane hvalid).bind ?_
        rw [haddress]
        refine hread.bind (Runs.if_neg (by omega) ?_)
        refine (nextCluster_runs node hv.sane hvalid).bind ?_
        have hleft : Remains v.sb.clusterSize i offset lsize cs.length remainder :=
          remains_of_min hi hoffset hend
        have hrest := ih (remainder - lsize) (by omega) (filled + lsize) (i + 1) 0
          (v.next node cs[i])
          (buffer.overlay filled lsize
            fun k => v.content cs (i * v.sb.clusterSize + offset + k))
          (by omega)
          (fun hmore => by
            rw [h.next_getElem (hleft.more hmore).1]
            exact List.getElem?_eq_getElem _)
          hleft.fits
        have hsource : Buf.overlay (buffer.overlay filled lsize
              fun k => v.content cs (i * v.sb.clusterSize + offset + k))
            (filled + lsize) (remainder - lsize)
              (fun k => v.content cs ((i + 1) * v.sb.clusterSize + 0 + k)) =
            buffer.overlay filled remainder
              fun k => v.content cs (i * v.sb.clusterSize + offset + k) := by
          rw [@Buf.overlay_congr _ _ fun k =>
            v.content cs (i * v.sb.clusterSize + offset + (k + lsize))]
          · rw [Buf.overlay_append buffer
              (fun k => v.content cs (i * v.sb.clusterSize + offset + k)),
              Nat.add_sub_cancel' (by omega)]
          · intro k hk
            have hsame := (hleft.more (by omega)).2
            exact congrArg (v.content cs) (by omega)
        rw [buffer_eq buffer hi hlsize, ← hsource]
        exact hrest
      · obtain rfl : remainder = 0 := by omega
        rw [Buf.overlay_zero]
        exact Runs.if_neg hpos (Runs.pure v _)

end Reading

/-! ## Writing -/

/-- The text in the clusters is changed from `start` on, and nothing outside them is. -/
structure Overlaid (cs : List Nat) (start count : Nat) (buffer : Buf) (v v' : View) :
    Prop where
  settings : v.SameSettings v'
  chunk : v'.cmap.chunk = v.cmap.chunk
  dev : ∀ k, (∀ c ∈ cs, ¬ v.sb.InCluster c k) → v'.dev k = v.dev k
  content : ∀ k < cs.length * v.sb.clusterSize,
    v'.content cs k = (v.content cs).overlay start count buffer k

namespace Overlaid

variable {v v' v'' : View} {node : Nat} {cs : List Nat} {start count more : Nat}
  {buffer : Buf}

theorem refl (cs : List Nat) (start : Nat) (buffer : Buf) (v : View) :
    Overlaid cs start 0 buffer v v :=
  ⟨.refl v, rfl, fun _ _ => rfl, fun k _ => by rw [Buf.overlay_zero]⟩

theorem trans (h : Overlaid cs start count buffer v v')
    (h' : Overlaid cs (start + count) more (fun k => buffer (k + count)) v' v'') :
    Overlaid cs start (count + more) buffer v v'' where
  settings := h.settings.trans h'.settings
  chunk := h'.chunk.trans h.chunk
  dev k hk := by
    rw [h'.dev k (by simpa only [h.settings.sb_eq] using hk), h.dev k hk]
  content k hk := by
    rw [h'.content k (by rwa [h.settings.sb_eq]), ← Buf.overlay_append]
    simp only [Buf.overlay] at h ⊢
    split
    · rfl
    · exact h.content k hk

theorem move (h : Overlaid cs start count buffer v v') (start' : Nat)
    (hstart : 0 < count → start' = start) : Overlaid cs start' count buffer v v' := by
  refine ⟨h.settings, h.chunk, h.dev, fun k hk => ?_⟩
  rw [h.content k hk]
  by_cases hpos : 0 < count
  · rw [hstart hpos]
  · obtain rfl : count = 0 := by omega
    rw [Buf.overlay_zero, Buf.overlay_zero]

theorem store (h : Chain v node cs) {i r : Nat} (hi : i < cs.length)
    (hr : r + count ≤ v.sb.clusterSize) (buffer : Buf) :
    Overlaid cs (i * v.sb.clusterSize + r) count buffer v
      (v.store (v.sb.clusterOffset cs[i] + r) count buffer) where
  settings := ⟨rfl, fun _ => rfl⟩
  chunk := rfl
  dev k hk := by
    have hout := hk cs[i] (List.getElem_mem hi)
    simp only [SuperBlock.InCluster] at hout
    exact if_neg (by omega)
  content k hk := by
    have hwrite := gather_overlay v.dev buffer h.apart
      (i := i) (by simpa using hi) hr (k := k) (by simpa using hk)
    rw [List.getElem_map] at hwrite
    exact hwrite

theorem setNode (h : Overlaid cs start count buffer v v') (node' : Node) :
    Overlaid cs start count buffer v (v'.setNode node node') :=
  ⟨h.settings.trans ⟨rfl, fun _ => rfl⟩, h.chunk, h.dev, h.content⟩

theorem free_eq (h : Overlaid cs start count buffer v v') : v'.free = v.free :=
  VolumeOn.free_congr h.settings.sb_eq h.chunk

theorem link_eq (h : Overlaid cs start count buffer v v') (hsb : v.sb.Sane) {c : Nat}
    (hc : v.sb.Valid c) : v'.link c = v.link c := by
  rw [VolumeOn.link, h.settings.sb_eq]
  refine readLe_congr fun j hj => h.dev _ fun d _ hin => ?_
  have hle := heapStart_le_of_inCluster hin
  have hfat := hsb.link_le_heap hc
  omega

theorem chain (h : Overlaid cs start count buffer v v') (hsb : v.sb.Sane)
    {ds : List Nat} (hchain : Chain v node ds)
    (hplace : (v.nodes node).SamePlace (v'.nodes node)) : Chain v' node ds :=
  hchain.congr hplace (fun c hc => h.link_eq hsb (hchain.valid c hc)) h.settings.sb_eq

end Overlaid

section Writing

variable {node : Nat} {cs : List Nat}

theorem pwriteLoop_runs (remainder : Nat) :
    ∀ {v : View} (i offset written cluster : Nat) (buffer : Buf)
      (_ : Mounted v) (_ : Chain v node cs) (hoffset : offset < v.sb.clusterSize),
      (0 < remainder → cs[i]? = some cluster) →
      i * v.sb.clusterSize + offset + remainder ≤ cs.length * v.sb.clusterSize →
      ∃ v', Runs Shows v (pwriteLoop node v.sb.clusterSize written buffer cluster offset
          hoffset remainder) 0 v' ∧
        Overlaid cs (i * v.sb.clusterSize + offset) remainder buffer v v' ∧
        v'.nodes = Function.update v.nodes node { v.nodes node with
          validSize := if remainder = 0 then (v.nodes node).validSize
            else max (v.nodes node).validSize written } := by
  induction remainder using Nat.strong_induction_on with
  | _ remainder ih =>
      intro v i offset written cluster buffer hv h hoffset hcluster hend
      rw [pwriteLoop]
      by_cases hpos : remainder > 0
      · obtain ⟨hi, rfl⟩ := List.getElem?_eq_some_iff.mp (hcluster hpos)
        have hvalid := h.valid _ (List.getElem_mem hi)
        have hfits := hv.sane.clusterOffset_le hvalid
        let lsize := min (v.sb.clusterSize - offset) remainder
        have hlsize : offset + lsize ≤ v.sb.clusterSize := by omega
        have haddress : u64 (v.sb.clusterOffset cs[i] + offset) =
            v.sb.clusterOffset cs[i] + offset := Nat.mod_eq_of_lt (by omega)
        have hstore := pwrite_runs (v := v) buffer
          (show v.sb.clusterOffset cs[i] + offset + lsize < 2 ^ 63 by omega)
        have hfirst := Overlaid.store h hi hlsize buffer
        let w := v.store (v.sb.clusterOffset cs[i] + offset) lsize buffer
        let node' := { v.nodes node with
          validSize := max (v.nodes node).validSize (written - (remainder - lsize)) }
        let u := w.setNode node node'
        have hu : Overlaid cs (i * v.sb.clusterSize + offset) lsize buffer v u :=
          hfirst.setNode node'
        have hchain : Chain u node cs :=
          hu.chain hv.sane h (by simp [u, node']; exact ⟨rfl, rfl, rfl, rfl⟩)
        have hleft : Remains v.sb.clusterSize i offset lsize cs.length remainder :=
          remains_of_min hi hoffset hend
        obtain ⟨v', hrun, hrest, hnodes⟩ := ih (remainder - lsize) (by omega)
          (i + 1) 0 written (u.next node cs[i]) (fun k => buffer (k + lsize)) (hu.settings.mounted hv) hchain
          v.sb.clusterSize_pos
          (fun hmore => by
            rw [hchain.next_getElem (hleft.more hmore).1]
            exact List.getElem?_eq_getElem _)
          hleft.fits
        refine ⟨v', Runs.if_pos hpos (get_runs fun d => Runs.if_neg (by simpa using hvalid) ?_),
          ?_, ?_⟩
        · refine (c2o_runs hv.sane hvalid).bind ?_
          rw [haddress]
          refine hstore.bind (Runs.if_neg (by omega) ((modifyNode_runs node _).bind ?_))
          exact (nextCluster_runs (v := u) node hv.sane hvalid).bind hrun
        · have hrest' := hrest.move (i * v.sb.clusterSize + offset + lsize)
            fun hmore => (hleft.more hmore).2.symm
          have hall := hu.trans hrest'
          rwa [Nat.add_sub_cancel' (by omega)] at hall
        · have hvalidSize : (if remainder - lsize = 0 then node'.validSize
              else max node'.validSize written) = max (v.nodes node).validSize written := by
            simp only [node']
            split <;> omega
          simp only [hnodes, u, w, VolumeOn.setNode, VolumeOn.store_nodes,
            Function.update_idem, Function.update_self, hvalidSize, if_neg hpos.ne']
          rfl
      · obtain rfl : remainder = 0 := by omega
        refine ⟨v, Runs.if_neg hpos (Runs.pure v _), .refl _ _ _ _, ?_⟩
        simp

end Writing

/-! ## Erasing -/

theorem or_cluster_mask (first bits : Nat) :
    (first ||| (2 ^ bits - 1)) + 1 = (first / 2 ^ bits + 1) * 2 ^ bits := by
  have hor : first ||| (2 ^ bits - 1) = 2 ^ bits * (first / 2 ^ bits) + (2 ^ bits - 1) := by
    refine Nat.eq_of_testBit_eq fun i => ?_
    rw [Nat.testBit_or, Nat.testBit_two_pow_sub_one, Nat.testBit_two_pow_mul_add _
      (Nat.sub_lt (Nat.two_pow_pos bits) Nat.one_pos), Nat.testBit_two_pow_sub_one]
    by_cases hi : i < bits
    · simp [hi]
    · rw [Nat.testBit_div_two_pow]
      simp [hi, Nat.sub_add_cancel (Nat.le_of_not_lt hi)]
  have hpos := Nat.two_pow_pos bits
  rw [hor, Nat.succ_mul, Nat.mul_comm]
  omega

section Erasing

variable {node : Nat} {cs : List Nat}

theorem eraseRaw_runs {v : View} (hv : Mounted v) (h : Chain v node cs) {i r size : Nat}
    (hi : i < cs.length) (hr : r + size ≤ v.sb.clusterSize) :
    ∃ v', Runs Shows v (eraseRaw size (v.sb.clusterOffset cs[i] + r)) true v' ∧
      Overlaid cs (i * v.sb.clusterSize + r) size (fun _ => 0) v v' ∧
      v'.nodes = v.nodes := by
  have hvalid := h.valid _ (List.getElem_mem hi)
  have hfits := hv.sane.clusterOffset_le hvalid
  have hzero : v.store (v.sb.clusterOffset cs[i] + r) size v.zeroCluster =
      v.store (v.sb.clusterOffset cs[i] + r) size fun _ => 0 := by
    rw [VolumeOn.store, VolumeOn.store, Buf.overlay_congr]
    exact fun k hk => hv.zeroCluster_eq k (by omega)
  have hstore := pwrite_runs (v := v) v.zeroCluster
    (show v.sb.clusterOffset cs[i] + r + size < 2 ^ 63 by omega)
  rw [hzero] at hstore
  refine ⟨_, get_runs fun d => hstore.bind (Runs.if_neg (by omega) (Runs.pure _ _)), ?_, rfl⟩
  exact Overlaid.store h hi hr _

theorem eraseClusters_runs {size left : Nat} (hsize : 0 < size) :
    ∀ {v : View} {i : Nat} (last : Nat) (_ : Mounted v) (_ : Chain v node cs) (hi : i < cs.length),
      v.sb.clusterSize = size → cs.length - i = left → last ≤ cs.length * size →
      ∃ v' count, Runs Shows v (eraseClusters node size last hsize cs[i]
          ((i + 1) * size)) 0 v' ∧ v'.nodes = v.nodes ∧
        Overlaid cs ((i + 1) * size) count (fun _ => 0) v v' ∧
        last ≤ (i + 1) * size + count ∧ (last ≤ (i + 1) * size → count = 0) := by
  induction left with
  | zero =>
      intro v i last _ _ hi _ hleft
      omega
  | succ left ih =>
      intro v i last hv h hi hsb hleft hlast
      subst hsb
      have hvalid := h.valid _ (List.getElem_mem hi)
      have hstep : (i + 1 + 1) * v.sb.clusterSize =
          (i + 1) * v.sb.clusterSize + v.sb.clusterSize := Nat.succ_mul _ _
      rw [eraseClusters]
      by_cases hmore : (i + 1) * v.sb.clusterSize < last
      · have hi' : i + 1 < cs.length := by
          by_contra hend
          have hle := Nat.mul_le_mul_right v.sb.clusterSize (show cs.length ≤ i + 1 by omega)
          omega
        have hvalid' := h.valid _ (List.getElem_mem hi')
        have hnext := nextCluster_runs node hv.sane hvalid
        rw [h.next_getElem hi'] at hnext
        obtain ⟨w, herase, hw, hnodes⟩ := eraseRaw_runs hv h hi'
          (show 0 + v.sb.clusterSize ≤ v.sb.clusterSize by omega)
        have hsb : w.sb = v.sb := hw.settings.sb_eq
        have hchain : Chain w node cs :=
          hw.chain hv.sane h (.of_eq (congrFun hnodes node))
        obtain ⟨v', count, hrun, hnodes', hrest, hle, -⟩ := ih last
          (hw.settings.mounted hv) hchain hi' (by rw [hsb]) (by omega) hlast
        refine ⟨v', v.sb.clusterSize + count, Runs.if_pos hmore ?_, ?_, ?_, ?_, ?_⟩
        · refine hnext.bind (get_runs fun d => ?_)
          refine (unlessBug_runs (by simpa using hvalid')).bind ?_
          refine (c2o_runs hv.sane hvalid').bind (herase.bind ?_)
          rw [← hstep]
          exact Runs.if_neg (by simp) hrun
        · rw [hnodes', hnodes]
        · exact hw.trans (hrest.move _ fun _ => by omega)
        · omega
        · omega
      · exact ⟨v, 0, Runs.if_neg hmore (Runs.pure v _), rfl, .refl _ _ _ _, by omega,
          fun _ => rfl⟩

/-- All bytes from `first` up to `last` are zero then, and none before them changes. -/
theorem eraseRange_runs {v : View} (hv : Mounted v) (h : Chain v node cs)
    {first last : Nat} (hlt : first < last)
    (hlast : last ≤ cs.length * v.sb.clusterSize) :
    ∃ v' count, Runs Shows v (eraseRange node first last) 0 v' ∧
      Overlaid cs first count (fun _ => 0) v v' ∧ last ≤ first + count ∧
      ∃ i, ∃ hi : i < cs.length, v'.nodes = (v.point node i cs[i]).nodes := by
  have hpos := v.sb.clusterSize_pos
  let i := first / v.sb.clusterSize
  have hi : i < cs.length := by
    refine Nat.div_lt_of_lt_mul ?_
    rw [Nat.mul_comm]
    omega
  have hsmall : i < 4294967296 := by
    have hle := h.length_le
    have hcount := hv.sane.count_le
    omega
  have hsplit : i * v.sb.clusterSize + first % v.sb.clusterSize = first := by
    rw [Nat.mul_comm]
    exact Nat.div_add_mod _ _
  have hmod := Nat.mod_lt first hpos
  have hstep : (i + 1) * v.sb.clusterSize = i * v.sb.clusterSize + v.sb.clusterSize :=
    Nat.succ_mul _ _
  have hboundary : (first ||| (v.sb.clusterSize - 1)) + 1 = (i + 1) * v.sb.clusterSize :=
    or_cluster_mask first _
  let w := v.point node i cs[i]
  have hpoint : v.SameSettings w := ⟨rfl, fun _ => rfl⟩
  have hw : Mounted w := hpoint.mounted hv
  have hchain : Chain w node cs := h.point hi
  have hvalid := h.valid _ (List.getElem_mem hi)
  have hfits := hv.sane.clusterOffset_le hvalid
  obtain ⟨u, hfirst, hu, hnodes⟩ := eraseRaw_runs hw hchain hi
    (show first % v.sb.clusterSize + (min ((i + 1) * v.sb.clusterSize) last - first) ≤
      v.sb.clusterSize by omega)
  obtain ⟨v', count, hrest, hnodes', hv', hle, hnone⟩ := eraseClusters_runs hpos
    last (hu.settings.mounted hw)
    (hu.chain hw.sane hchain (.of_eq (congrFun hnodes node))) hi
    (congrArg SuperBlock.clusterSize hu.settings.sb_eq) rfl hlast
  have haddress : u64 (v.sb.clusterOffset cs[i] + first % v.sb.clusterSize) =
      v.sb.clusterOffset cs[i] + first % v.sb.clusterSize := Nat.mod_eq_of_lt (by omega)
  refine ⟨v', min ((i + 1) * v.sb.clusterSize) last - first + count,
    Runs.if_neg (by omega) (get_runs fun d => ?_), ?_, by omega, i, hi, ?_⟩
  · have hindex : u32 (first / v.sb.clusterSize) = i := u32_of_lt hsmall
    dsimp only
    rw [hboundary, hindex]
    refine (advanceCluster_runs hv.sane h hi).bind (Runs.if_neg ?_ ?_)
    · simpa using hvalid
    · refine (c2o_runs (v := w) hw.sane hvalid).bind ?_
      rw [VolumeOn.point_sb, haddress]
      exact hfirst.bind (Runs.if_neg (by simp) hrest)
  · have hstart := hu.move first fun _ => hsplit.symm
    have hall := hstart.trans (hv'.move _ fun _ => by omega)
    exact ⟨hpoint.trans hall.settings, hall.chunk, hall.dev, hall.content⟩
  · rw [hnodes', hnodes]

end Erasing

end EntropyOS.Libexfat
