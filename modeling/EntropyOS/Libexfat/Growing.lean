import EntropyOS.Libexfat.Shrinking

/-!
# Growing a file

`grow_file` takes clusters one by one.  A file stays contiguous as long as every
new cluster follows the last one; after that its links are in the FAT.  When the
clusters run out, those that were taken are given back.
-/

namespace EntropyOS.Libexfat

open EntropyOS.Foundation

section Contiguity

variable {v : View} {node : Nat} {cs : List Nat}

/-- The clusters from `c` on are linked one to the next. -/
theorem makeNoncontiguous_runs (node : Nat) {rounds c : Nat} (hv : Mounted v)
    (hvalid : ∀ d, c ≤ d → d < c + rounds → v.sb.Valid d) :
    ∃ v', Runs Shows v (makeNoncontiguous rounds c) true v' ∧ v'.nodes = v.nodes ∧
      Frame node (Finset.Ico c (c + rounds)) v v' ∧ v'.free = v.free ∧
      ∀ d, c ≤ d → d < c + rounds → v'.link d = d + 1 := by
  induction rounds generalizing c v with
  | zero =>
      refine ⟨v, Runs.pure v _, rfl, .refl _ _ _, rfl, ?_⟩
      intro d hle hlt
      omega
  | succ rounds ih =>
      have hc := hvalid c le_rfl (by omega)
      have hlt := hv.sane.cluster_lt hc
      let w := v.relink false c (c + 1)
      have hw : Frame node {c} v w := Frame.relink _ _ _
      have hsb : w.sb = v.sb := hw.settings.sb_eq
      obtain ⟨v', hrun, hnodes, hframe, hfree, hlinks⟩ := ih (c := c + 1)
        (hw.settings.mounted hv)
        (fun d hle hlt => by rw [hsb]; exact hvalid d (by omega) (by omega))
      refine ⟨v', ?_, hnodes, ?_, ?_, ?_⟩
      · exact (setNextCluster_runs hv.sane hc _ _).bind (Runs.if_neg (by simp) hrun)
      · refine (hw.mono ?_).trans (hframe.mono ?_)
        · simp
        · exact Finset.Ico_subset_Ico (by omega) (by omega)
      · exact hfree.trans (VolumeOn.free_congr rfl rfl)
      · intro d hle hlt'
        by_cases hd : d = c
        · have hout : c ∉ Finset.Ico (c + 1) (c + 1 + rounds) := by simp
          rw [hd, hframe.link_eq hout]
          exact VolumeOn.link_withLink_self (by omega)
        · exact hlinks d (by omega) (by omega)

namespace Chain

/-- The clusters of a contiguous file follow each other. -/
theorem eq_range' (h : Chain v node cs)
    (hcontiguous : (v.nodes node).isContiguous = true) :
    cs = List.range' (cs.headD clusterFree) cs.length := by
  have hlinks := h.links
  simp only [VolumeOn.next, hcontiguous, if_true] at hlinks
  clear h
  induction cs with
  | nil => rfl
  | cons c rest ih =>
      cases rest with
      | nil => rfl
      | cons d rest =>
          obtain ⟨rfl, htail⟩ := List.isChain_cons_cons.mp hlinks
          have hrest := ih htail
          rw [List.headD_cons] at hrest
          rw [List.headD_cons, List.length_cons, List.range'_succ, ← hrest]

theorem eq_range'_concat {front : List Nat} {last : Nat}
    (h : Chain v node (front ++ [last]))
    (hcontiguous : (v.nodes node).isContiguous = true) :
    front = List.range' (v.nodes node).startCluster front.length ∧
      last = (v.nodes node).startCluster + front.length := by
  have heq := h.eq_range' hcontiguous
  rw [← h.start, List.length_append, List.length_singleton, List.range'_concat] at heq
  obtain ⟨hfront, hlast⟩ := List.append_inj' heq rfl
  exact ⟨hfront, by simpa using hlast⟩

end Chain

/-- The node once the links of its file are in the FAT. -/
def VolumeOn.scatter (v : View) (node : Nat) : View :=
  v.setNode node { v.nodes node with isContiguous := false, isDirty := true }

theorem Chain.scatter {w : View} (h : Chain v node cs) (hsb : w.sb = v.sb)
    (hnodes : w.nodes = v.nodes) (hlinks : cs.IsChain fun a b => w.link a = b) :
    Chain (w.scatter node) node cs where
  valid := by simpa [VolumeOn.scatter, hsb] using h.valid
  nodup := h.nodup
  links := by simpa [VolumeOn.scatter, VolumeOn.next, VolumeOn.link] using hlinks
  start := by simpa [VolumeOn.scatter, hnodes] using h.start
  pointer := by simpa [VolumeOn.scatter, hnodes] using h.pointer

theorem leaveContiguity_runs (hv : Mounted v) {front : List Nat} {last : Nat}
    (h : Chain v node (front ++ [last])) (next : Nat) :
    ∃ v', Runs Shows v (leaveContiguity node last next) true v' ∧
      Chain v' node (front ++ [last]) ∧
      Frame node (front ++ [last]).toFinset v v' ∧ v'.free = v.free ∧
      ((v'.nodes node).isContiguous = true → next = last + 1) := by
  have hlt := hv.sane.cluster_lt (h.valid last (by simp))
  have hsucc : u32 (last + 1) = last + 1 := u32_of_lt (by omega)
  by_cases hleave : next ≠ u32 (last + 1) ∧ (v.nodes node).isContiguous = true
  · obtain ⟨hfront, hlast⟩ := h.eq_range'_concat hleave.2
    let start := (v.nodes node).startCluster
    have hlt' : last - start = front.length := by omega
    have hmem : ∀ d, start ≤ d → d < start + front.length → d ∈ front := by
      intro d hle hd
      rw [hfront, List.mem_range'_1]
      exact ⟨hle, hd⟩
    have hrange : ∀ d, start ≤ d → d < start + front.length → v.sb.Valid d :=
      fun d hle hd => h.valid d (by simp [hmem d hle hd])
    obtain ⟨w, hrun, hnodes, hframe, hfree, hlinks⟩ := makeNoncontiguous_runs node hv hrange
    have hsub : Finset.Ico start (start + front.length) ⊆ (front ++ [last]).toFinset := by
      intro d hd
      rw [Finset.mem_Ico] at hd
      simp [hmem d hd.1 hd.2]
    refine ⟨w.scatter node, ?_, h.scatter hframe.settings.sb_eq hnodes ?_, ?_, ?_, ?_⟩
    · refine (getNode_runs node).bind (Runs.if_pos hleave ?_)
      rw [hlt']
      refine hrun.bind (Runs.if_neg (by simp) ?_)
      exact (modifyNode_runs node _).bind (Runs.pure _ _)
    · refine isChain_of_dropLast (f := fun a => a + 1) ?_ fun a ha => ?_
      · simpa [VolumeOn.next, hleave.2] using h.links
      · rw [List.dropLast_concat, hfront, List.mem_range'_1] at ha
        exact hlinks a ha.1 ha.2
    · exact (hframe.mono hsub).trans (Frame.setNode rfl)
    · exact (VolumeOn.free_congr rfl rfl).trans hfree
    · intro hcontiguous
      simp [VolumeOn.scatter] at hcontiguous
  · refine ⟨v, (getNode_runs node).bind (Runs.if_neg hleave (Runs.pure v _)), h,
      .refl _ _ _, rfl, fun hcontiguous => ?_⟩
    by_contra hne
    exact hleave ⟨by rwa [hsucc], hcontiguous⟩

end Contiguity

section Loop

variable {v : View} {node : Nat}

/-- The link of the last cluster is not part of the chain. -/
theorem Chain.relink_last {front : List Nat} {last : Nat}
    (h : Chain v node (front ++ [last])) (contiguous : Bool) (target : Nat) :
    Chain (v.relink contiguous last target) node (front ++ [last]) := by
  have hw : Frame node {last} v (v.relink contiguous last target) := Frame.relink _ _ _
  have hfront : ∀ a ∈ (front ++ [last]).dropLast,
      (v.relink contiguous last target).next node a = v.next node a := by
    intro a ha
    rw [List.dropLast_concat] at ha
    have hne : a ∉ ({last} : Finset Nat) := by
      rw [Finset.mem_singleton]
      rintro rfl
      exact (List.nodup_append.mp h.nodup).2.2 a ha a (by simp) rfl
    simp only [VolumeOn.next, VolumeOn.relink_nodes, hw.link_eq hne]
  exact ⟨by simpa using h.valid, h.nodup, isChain_of_dropLast h.links hfront,
    by simpa using h.start, by simpa using h.pointer⟩

theorem Chain.append {front : List Nat} {last c : Nat} (h : Chain v node (front ++ [last]))
    (hc : v.sb.Valid c) (hsane : v.sb.Sane) (hfresh : c ∉ front ++ [last])
    (hadjacent : (v.nodes node).isContiguous = true → c = last + 1) :
    Chain (v.relink (v.nodes node).isContiguous last c) node (front ++ [last] ++ [c]) := by
  have hlt := hsane.cluster_lt hc
  have hw := h.relink_last (v.nodes node).isContiguous c
  have hlast : (v.relink (v.nodes node).isContiguous last c).next node last = c := by
    simp only [VolumeOn.next, VolumeOn.relink_nodes]
    cases hcontiguous : (v.nodes node).isContiguous with
    | true => simp [hadjacent hcontiguous]
    | false =>
        rw [if_neg (by simp)]
        exact VolumeOn.link_withLink_self (by omega)
  refine ⟨?_, ?_, ?_, ?_, ?_⟩
  · intro a ha
    rcases List.mem_append.mp ha with ha | ha
    · exact hw.valid a ha
    · simpa [List.mem_singleton.mp ha] using hc
  · rw [List.nodup_append_comm]
    exact List.nodup_cons.mpr ⟨hfresh, h.nodup⟩
  · refine List.isChain_append.mpr ⟨hw.links, by simp, ?_⟩
    intro a ha b hb
    obtain rfl : last = a := by simpa using ha
    obtain rfl : c = b := by simpa using hb
    exact hlast
  · rw [hw.start]
    cases front <;> rfl
  · obtain ⟨i, hi, hindex, -⟩ := hw.exists_pointer (by simp)
    refine .inl ((List.getElem?_append_left (by rwa [hindex])).trans ?_)
    exact hw.pointer.resolve_right (by simp)

theorem appendCluster_runs (hv : Mounted v) {front : List Nat} {last c : Nat}
    (h : Chain v node (front ++ [last])) (hc : v.sb.Valid c)
    (hfresh : c ∉ front ++ [last]) :
    ∃ v', Runs Shows v (appendCluster node last c) true v' ∧
      Chain v' node (front ++ [last] ++ [c]) ∧
      Frame node (front ++ [last]).toFinset v v' ∧ v'.free = v.free := by
  obtain ⟨w, hrun, hchain, hframe, hfree, hadjacent⟩ := leaveContiguity_runs hv h c
  have hw := hframe.settings.mounted hv
  have hsb := hframe.settings.sb_eq
  have hlink := setNextCluster_runs hw.sane (hchain.valid last (by simp))
    (w.nodes node).isContiguous c
  refine ⟨w.relink (w.nodes node).isContiguous last c, ?_, ?_, ?_, ?_⟩
  · exact hrun.bind (Runs.if_neg (by simp) ((getNode_runs node).bind hlink))
  · exact hchain.append (by rwa [hsb]) hw.sane hfresh hadjacent
  · exact hframe.trans ((Frame.relink _ _ _).mono (by simp))
  · exact (VolumeOn.free_congr (by simp) (by simp)).trans hfree

/-- What a file is after it was to grow by `count` clusters. -/
structure Grown (node : Nat) (cs : List Nat) (count : Nat) (v v' : View) (new : List Nat) :
    Prop where
  chain : Chain v' node (cs ++ new)
  length_eq : new.length = count
  new_free : ∀ c ∈ new, c ∈ v.free
  free_eq : v'.free = v.free \ new.toFinset
  frame : Frame node (cs.toFinset ∪ v.free) v v'

theorem allocateCluster_append {front : List Nat} {last : Nat} (hv : Mounted v)
    (h : Chain v node (front ++ [last])) (hfresh : ∀ c ∈ front ++ [last], c ∉ v.free)
    (hint : Nat) (hne : v.free ≠ ∅) :
    ∃ c w, c ∈ v.free ∧ Runs Shows v (allocateCluster hint) c (v.take c) ∧
      Runs Shows (v.take c) (appendCluster node last c) true w ∧
      Grown node (front ++ [last]) 1 v w [c] := by
  rcases allocateCluster_runs hv hint with ⟨i, -, hmem, halloc⟩ | ⟨hempty, -⟩
  · have hvalid := VolumeOn.valid_of_mem_free hmem
    have htake : Frame node ∅ v (v.take (i + firstDataCluster)) := Frame.setChunk _
    obtain ⟨w, hrun, hchain, hframe, hfree⟩ := appendCluster_runs (htake.settings.mounted hv)
      (h.congr (.of_eq rfl) (fun _ _ => rfl) rfl) hvalid fun hin => hfresh _ hin hmem
    refine ⟨_, w, hmem, halloc, hrun, hchain, rfl, by simpa using hmem, ?_, ?_⟩
    · rw [hfree, VolumeOn.take_free hvalid, Finset.erase_eq]
      rfl
    · exact (htake.mono (Finset.empty_subset _)).trans
        (hframe.mono Finset.subset_union_left)
  · exact absurd hempty hne

theorem Grown.trans {cs new new' : List Nat} {n n' : Nat} {w v' : View}
    (h : Grown node cs n v w new) (h' : Grown node (cs ++ new) n' w v' new') :
    Grown node cs (n + n') v v' (new ++ new') := by
  have hsub : w.free ⊆ v.free := by
    rw [h.free_eq]
    exact Finset.sdiff_subset
  refine ⟨?_, ?_, ?_, ?_, ?_⟩
  · rw [← List.append_assoc]
    exact h'.chain
  · rw [List.length_append, h.length_eq, h'.length_eq]
  · intro c hc
    rcases List.mem_append.mp hc with hc | hc
    · exact h.new_free c hc
    · exact hsub (h'.new_free c hc)
  · rw [h'.free_eq, h.free_eq, List.toFinset_append, sdiff_sdiff]
    rfl
  · refine h.frame.trans (h'.frame.mono ?_)
    intro c hc
    simp only [List.toFinset_append, Finset.mem_union, List.mem_toFinset] at hc ⊢
    rcases hc with (hc | hc) | hc
    · exact .inl hc
    · exact .inr (h.new_free c hc)
    · exact .inr (hsub hc)

/-- Neither the old clusters nor the new ones are free any more. -/
theorem Grown.notMem_free {cs new : List Nat} {n : Nat} {v' : View}
    (h : Grown node cs n v v' new) (hfresh : ∀ c ∈ cs, c ∉ v.free) :
    ∀ c ∈ cs ++ new, c ∉ v'.free := by
  intro c hc
  rw [h.free_eq, Finset.mem_sdiff, List.mem_toFinset]
  rintro ⟨hfree, hnew⟩
  rcases List.mem_append.mp hc with hc | hc
  · exact hfresh c hc hfree
  · exact hnew hc

theorem Grown.card_free {cs new : List Nat} {n : Nat} {v' : View}
    (h : Grown node cs n v v' new) : v'.free.card + n = v.free.card := by
  have hnodup : new.Nodup := h.chain.nodup.of_append_right
  have hsub : new.toFinset ⊆ v.free := fun c hc => h.new_free c (List.mem_toFinset.mp hc)
  have hle := Finset.card_le_card hsub
  rw [h.free_eq, Finset.card_sdiff_of_subset hsub]
  rw [List.toFinset_card_of_nodup hnodup, h.length_eq] at hle ⊢
  omega

theorem growLoop_runs (current allocated : Nat) {rounds : Nat} {front : List Nat} {last : Nat}
    (hv : Mounted v) (h : Chain v node (front ++ [last]))
    (hfresh : ∀ c ∈ front ++ [last], c ∉ v.free) (hrounds : rounds ≤ v.free.card) :
    ∃ v' new last', Runs Shows v (growLoop node current rounds allocated last)
        (.ok last') v' ∧ (front ++ [last] ++ new).getLast? = some last' ∧
      Grown node (front ++ [last]) rounds v v' new := by
  induction rounds generalizing front last allocated v with
  | zero =>
      refine ⟨v, [], last, Runs.pure v _, by simp, ?_⟩
      exact ⟨by simpa using h, rfl, by simp, by simp, .refl _ _ _⟩
  | succ rounds ih =>
      have hne : v.free ≠ ∅ := by
        rintro hempty
        simp [hempty] at hrounds
      obtain ⟨c, w, hc, halloc, happend, hgrown⟩ :=
        allocateCluster_append hv h hfresh (u32 (last + 1)) hne
      have hcard := hgrown.card_free
      obtain ⟨v', new, last', hrun, hlast, hgrown'⟩ := ih (allocated + 1)
        (hgrown.frame.settings.mounted hv) hgrown.chain (hgrown.notMem_free hfresh)
        (by omega)
      have hvalid := VolumeOn.valid_of_mem_free hc
      refine ⟨v', c :: new, last', ?_, by simpa using hlast, ?_⟩
      · refine halloc.bind (get_runs fun d => Runs.if_neg (by simpa using hvalid) ?_)
        exact happend.bind (Runs.if_neg (by simp) hrun)
      · rw [Nat.add_comm]
        exact hgrown.trans hgrown'

end Loop

/-! ## When the clusters run out -/

/-- What a file is after it could not grow: the first `count` clusters of it. -/
structure Reverted (node count : Nat) (cs : List Nat) (v v' : View) : Prop where
  chain : Chain v' node (cs.take count)
  ended : (count = cs.length → Ended v node cs) → Ended v' node (cs.take count)
  free_eq : v'.free = v.free ∪ (cs.drop count).toFinset
  frame : Frame node (cs.toFinset ∪ v.free) v v'

section Failure

variable {v : View} {node : Nat} {cs : List Nat}

theorem Reverted.of_same {v' : View} (h : Chain v' node cs)
    (hended : Ended v node cs → Ended v' node cs) (hfree : v'.free = v.free)
    (hframe : Frame node (cs.toFinset ∪ v.free) v v') :
    Reverted node cs.length cs v v' := by
  refine ⟨?_, ?_, ?_, hframe⟩
  · rwa [List.take_length]
  · rw [List.take_length]
    exact fun himp => hended (himp rfl)
  · rw [hfree, List.drop_length]
    simp

/-- A cluster that was taken is given back with the others. -/
theorem Reverted.of_grown {count : Nat} {c : Nat} {w v' : View}
    (hgrown : Grown node cs 1 v w [c]) (h : Reverted node count (cs ++ [c]) w v')
    (hcount : count ≤ cs.length) : Reverted node count cs v v' := by
  have hc : c ∈ v.free := hgrown.new_free c (by simp)
  obtain ⟨hchain, hended, hfree, hframe⟩ := h
  rw [List.take_append_of_le_length hcount] at hchain hended
  refine ⟨hchain, fun _ => hended ?_, ?_, ?_⟩
  · intro heq
    rw [List.length_append, List.length_singleton] at heq
    omega
  · rw [hfree, hgrown.free_eq, List.drop_append_of_le_length hcount]
    ext d
    by_cases hd : d = c
    · simp [hd, hc]
    · simp [hd]
  · refine hgrown.frame.trans (hframe.mono ?_)
    intro d hd
    rw [hgrown.free_eq] at hd
    by_cases hdc : d = c
    · simp [hdc, hc]
    · simpa [hdc] using hd

theorem giveBack_runs (hv : Mounted v) (h : Chain v node cs) {current allocated : Nat}
    (hlength : current + allocated = cs.length) :
    ∃ v', Runs Shows v (giveBack node current allocated) () v' ∧
      Reverted node current cs v v' := by
  by_cases hzero : allocated = 0
  · obtain rfl : current = cs.length := by omega
    exact ⟨v, Runs.if_neg (by simpa using hzero) (Runs.pure v _),
      .of_same h id rfl (.refl _ _ _)⟩
  · have hlt : cs.length < 4294967296 := by
      have hle := h.length_le
      have hcount := hv.sane.count_le
      omega
    have hdropped : (cs.drop current).length = allocated := by
      rw [List.length_drop]
      omega
    have hkept : (cs.take current).length = current := by
      rw [List.length_take]
      omega
    have hne : cs.drop current ≠ [] := List.ne_nil_of_length_pos (by omega)
    rw [← List.take_append_drop current cs] at h
    obtain ⟨v', hrun, hchain, hended, hframe, hfree⟩ := shrinkFile_runs hv hne h
    rw [hdropped, hkept] at hrun
    rw [List.take_append_drop] at hframe
    refine ⟨v', Runs.if_pos hzero ?_, hchain, fun _ => hended, hfree,
      hframe.mono Finset.subset_union_left⟩
    rw [hlength, u32_of_lt hlt, ← hlength]
    exact hrun.bind (Runs.pure _ _)

theorem growLoop_fails (current allocated : Nat) {rounds : Nat} {front : List Nat} {last : Nat}
    (hv : Mounted v) (h : Chain v node (front ++ [last]))
    (hfresh : ∀ c ∈ front ++ [last], c ∉ v.free) (hrounds : v.free.card < rounds)
    (hlength : current + allocated = (front ++ [last]).length) :
    ∃ v', Runs Shows v (growLoop node current rounds allocated last)
        (.error (-enospc)) v' ∧ Reverted node current (front ++ [last]) v v' := by
  induction rounds generalizing front last allocated v with
  | zero => omega
  | succ rounds ih =>
      by_cases hempty : v.free = ∅
      · rcases allocateCluster_runs hv (u32 (last + 1)) with ⟨i, -, hmem, -⟩ | ⟨-, halloc⟩
        · simp [hempty] at hmem
        · have hw : Frame node ∅ v v.countError := Frame.countError
          obtain ⟨v', hrun, hchain, hended, hfree, hframe⟩ := giveBack_runs
            (hw.settings.mounted hv) (h.congr (.of_eq rfl) (fun _ _ => rfl) rfl) hlength
          refine ⟨v', ?_, hchain, hended, hfree, (hw.mono (Finset.empty_subset _)).trans hframe⟩
          refine halloc.bind (get_runs fun d => Runs.if_pos ?_ (hrun.bind (Runs.pure _ _)))
          simpa using hv.sane.clusterEnd_not_valid
      · obtain ⟨c, w, hc, halloc, happend, hgrown⟩ :=
          allocateCluster_append hv h hfresh (u32 (last + 1)) hempty
        have hcard := hgrown.card_free
        obtain ⟨v', hrun, hreverted⟩ := ih (allocated + 1)
          (hgrown.frame.settings.mounted hv) hgrown.chain (hgrown.notMem_free hfresh)
          (by omega) (by simp at hlength ⊢; omega)
        have hvalid := VolumeOn.valid_of_mem_free hc
        refine ⟨v', ?_, ?_⟩
        · refine halloc.bind (get_runs fun d => Runs.if_neg (by simpa using hvalid) ?_)
          exact happend.bind (Runs.if_neg (by simp) hrun)
        · exact hreverted.of_grown hgrown (by omega)

end Failure

/-! ## The whole of `grow_file` -/

section GrowFile

variable {v : View} {node : Nat} {cs : List Nat}

theorem lastCluster_concat (hv : Mounted v) {front : List Nat} {last : Nat}
    (h : Chain v node (front ++ [last])) :
    Runs Shows v (lastCluster node (front.length + 1)) (.ok (last, 0))
      (v.point node front.length last) := by
  have hlt : front.length < 4294967296 := by
    have hle := h.length_le
    have hcount := hv.sane.count_le
    simp at hle
    omega
  have hindex : u32 (front.length + 1 + 4294967296 - 1) = front.length := by
    simp only [u32]
    omega
  have hlast : front.length < (front ++ [last]).length := by simp
  have hadvance := advanceCluster_runs hv.sane h hlast
  rw [List.getElem_concat_length rfl] at hadvance
  refine (getNode_runs node).bind (Runs.if_pos (h.start_ne_free (by simp)) ?_)
  rw [hindex]
  refine hadvance.bind (get_runs fun d => Runs.if_neg ?_ (Runs.pure _ _))
  simpa using h.valid last (by simp)

theorem lastCluster_nil (hv : Mounted v) (h : Chain v node []) (hne : v.free ≠ ∅)
    (current : Nat) :
    ∃ c w, Runs Shows v (lastCluster node current) (.ok (c, 1)) w ∧
      Grown node [] 1 v w [c] := by
  have hindex : (v.nodes node).fptrIndex = 0 := by
    rcases h.pointer with hsome | ⟨-, hzero⟩
    · simp at hsome
    · exact hzero
  rcases allocateCluster_runs hv 0 with ⟨i, -, hmem, halloc⟩ | ⟨hempty, -⟩
  · have hvalid := VolumeOn.valid_of_mem_free hmem
    let c := i + firstDataCluster
    let node' := { v.nodes node with
      fptrCluster := c, startCluster := c, isContiguous := true }
    refine ⟨c, (v.take c).setNode node node', ?_, ?_⟩
    · refine (getNode_runs node).bind (Runs.if_neg (by simp [h.start]) ?_)
      refine (unlessBug_runs hindex).bind (halloc.bind (get_runs fun d => ?_))
      refine Runs.if_neg (by simpa using hvalid) ?_
      exact (modifyNode_runs node _).bind (Runs.pure _ _)
    · refine ⟨⟨?_, by simp, by simp, by simp [node'], .inl ?_⟩, rfl, ?_, ?_, ?_⟩
      · simpa using hvalid
      · simp [node', hindex]
      · simpa using hmem
      · refine (VolumeOn.free_congr (v := v.take c) rfl rfl).trans ?_
        rw [VolumeOn.take_free hvalid, Finset.erase_eq]
        rfl
      · exact (Frame.setChunk _).trans (Frame.setNode rfl)
  · exact absurd hempty hne

theorem lastCluster_fails (hv : Mounted v) (h : Chain v node []) (hempty : v.free = ∅)
    (current : Nat) :
    Runs Shows v (lastCluster node current) (.error (-enospc)) v.countError := by
  have hindex : (v.nodes node).fptrIndex = 0 := by
    rcases h.pointer with hsome | ⟨-, hzero⟩
    · simp at hsome
    · exact hzero
  rcases allocateCluster_runs hv 0 with ⟨i, -, hmem, -⟩ | ⟨-, halloc⟩
  · simp [hempty] at hmem
  · refine (getNode_runs node).bind (Runs.if_neg (by simp [h.start]) ?_)
    refine (unlessBug_runs hindex).bind (halloc.bind (get_runs fun d => ?_))
    exact Runs.if_pos (by simpa using hv.sane.clusterEnd_not_valid) (Runs.pure _ _)

theorem ended_relink {v : View} {node last : Nat} (front : List Nat) :
    Ended (v.relink (v.nodes node).isContiguous last clusterEnd) node
      (front ++ [last]) := by
  intro hcontiguous c hc
  rw [VolumeOn.relink_nodes] at hcontiguous
  obtain rfl : last = c := by simpa using hc
  rw [hcontiguous]
  exact VolumeOn.link_withLink_self (by decide)

theorem Grown.mark {count : Nat} {w : View} {new : List Nat} {last : Nat}
    (h : Grown node cs count v w new) (hlast : (cs ++ new).getLast? = some last) :
    Grown node cs count v (w.relink (w.nodes node).isContiguous last clusterEnd) new ∧
      Ended (w.relink (w.nodes node).isContiguous last clusterEnd) node (cs ++ new) := by
  obtain ⟨front, hfront⟩ := List.getLast?_eq_some_iff.mp hlast
  have hchain := h.chain
  rw [hfront] at hchain ⊢
  refine ⟨⟨?_, h.length_eq, h.new_free, ?_, ?_⟩, ended_relink front⟩
  · rw [hfront]
    exact hchain.relink_last _ _
  · exact (VolumeOn.free_congr (by simp) (by simp)).trans h.free_eq
  · refine h.frame.trans ((Frame.relink _ _ _).mono ?_)
    have hmem : last ∈ cs ++ new := List.mem_of_getLast? hlast
    rw [Finset.singleton_subset_iff, Finset.mem_union, List.mem_toFinset]
    rcases List.mem_append.mp hmem with hmem | hmem
    · exact .inl hmem
    · exact .inr (h.new_free last hmem)

/-- The last steps of a growth that found its clusters. -/
theorem growFile_of_loop {current count allocated previous last : Nat} {w w' : View}
    {new : List Nat} (hv : Mounted v) (hpos : count ≠ 0)
    (hfirst : Runs Shows v (lastCluster node current) (.ok (previous, allocated)) w)
    (hloop : Runs Shows w (growLoop node current (count - allocated) allocated previous)
      (.ok last) w')
    (hlast : (cs ++ new).getLast? = some last) (hgrown : Grown node cs count v w' new) :
    ∃ v', Runs Shows v (growFile node current count) 0 v' ∧
      Grown node cs count v v' new ∧ Ended v' node (cs ++ new) := by
  have hw' := hgrown.frame.settings.mounted hv
  have hvalid := hgrown.chain.valid last (List.mem_of_getLast? hlast)
  refine ⟨_, (unlessBug_runs hpos).bind (hfirst.bind (hloop.bind ?_)), hgrown.mark hlast⟩
  refine (getNode_runs node).bind ?_
  exact (setNextCluster_runs hw'.sane hvalid _ _).bind
    (Runs.if_neg (by simp) (Runs.pure _ _))

/-- The file grows if there are enough free clusters. -/
theorem growFile_runs (hv : Mounted v) (h : Chain v node cs)
    (hfresh : ∀ c ∈ cs, c ∉ v.free) {count : Nat} (hpos : count ≠ 0)
    (hcount : count ≤ v.free.card) :
    ∃ v' new, Runs Shows v (growFile node cs.length count) 0 v' ∧
      Grown node cs count v v' new ∧ Ended v' node (cs ++ new) := by
  rcases cs.eq_nil_or_concat' with rfl | ⟨front, last, rfl⟩
  · have hne : v.free ≠ ∅ := by
      rintro hempty
      rw [hempty, Finset.card_empty] at hcount
      omega
    obtain ⟨c, w, hfirst, hgrown⟩ := lastCluster_nil hv h hne 0
    have hcard := hgrown.card_free
    have hsingle : Chain w node ([] ++ [c]) := hgrown.chain
    obtain ⟨w', new, last, hloop, hlast, hgrown'⟩ := growLoop_runs 0 1
      (hgrown.frame.settings.mounted hv) hsingle (hgrown.notMem_free hfresh)
      (show count - 1 ≤ w.free.card by omega)
    have hall := hgrown.trans hgrown'
    rw [show 1 + (count - 1) = count by omega] at hall
    have hlast' : ([] ++ ([c] ++ new)).getLast? = some last := hlast
    obtain ⟨v', hrun, hmarked⟩ := growFile_of_loop hv hpos hfirst hloop hlast' hall
    exact ⟨v', _, hrun, hmarked⟩
  · have hpoint : Frame node ∅ v (v.point node front.length last) := Frame.point _ _
    have hchain : Chain (v.point node front.length last) node (front ++ [last]) := by
      have hpointed := h.point (i := front.length) (by simp)
      rwa [List.getElem_concat_length rfl] at hpointed
    obtain ⟨w', new, last', hloop, hlast, hgrown⟩ := growLoop_runs
      (front.length + 1) 0 (hpoint.settings.mounted hv) hchain hfresh hcount
    have hall : Grown node (front ++ [last]) count v w' new :=
      ⟨hgrown.chain, hgrown.length_eq, hgrown.new_free, hgrown.free_eq,
        (hpoint.mono (Finset.empty_subset _)).trans hgrown.frame⟩
    obtain ⟨v', hrun, hmarked⟩ := growFile_of_loop hv hpos (lastCluster_concat hv h) hloop
      hlast hall
    rw [List.length_append, List.length_singleton]
    exact ⟨v', new, hrun, hmarked⟩

theorem growFile_fails (hv : Mounted v) (h : Chain v node cs)
    (hfresh : ∀ c ∈ cs, c ∉ v.free) {count : Nat} (hcount : v.free.card < count) :
    ∃ v', Runs Shows v (growFile node cs.length count) (-enospc) v' ∧
      Reverted node cs.length cs v v' := by
  have hpos : count ≠ 0 := by omega
  rcases cs.eq_nil_or_concat' with rfl | ⟨front, last, rfl⟩
  · by_cases hempty : v.free = ∅
    · refine ⟨v.countError, (unlessBug_runs hpos).bind
        ((lastCluster_fails hv h hempty 0).bind (Runs.pure _ _)), ?_⟩
      exact .of_same (h.congr (.of_eq rfl) (fun _ _ => rfl) rfl) (fun _ _ c hc => by simp at hc)
        rfl Frame.countError
    · obtain ⟨c, w, hfirst, hgrown⟩ := lastCluster_nil hv h hempty 0
      have hcard := hgrown.card_free
      have hsingle : Chain w node ([] ++ [c]) := hgrown.chain
      obtain ⟨v', hloop, hreverted⟩ := growLoop_fails 0 1
        (hgrown.frame.settings.mounted hv) hsingle (hgrown.notMem_free hfresh)
        (show w.free.card < count - 1 by omega) rfl
      refine ⟨v', ?_, hreverted.of_grown hgrown le_rfl⟩
      exact (unlessBug_runs hpos).bind (hfirst.bind (hloop.bind (Runs.pure _ _)))
  · have hpoint : Frame node ∅ v (v.point node front.length last) := Frame.point _ _
    have hchain : Chain (v.point node front.length last) node (front ++ [last]) := by
      have hpointed := h.point (i := front.length) (by simp)
      rwa [List.getElem_concat_length rfl] at hpointed
    obtain ⟨v', hloop, hreverted⟩ := growLoop_fails
      (front.length + 1) 0 (hpoint.settings.mounted hv) hchain hfresh hcount (by simp)
    rw [List.length_append, List.length_singleton]
    refine ⟨v', ?_, hreverted.chain, fun hended => hreverted.ended fun heq => ?_,
      hreverted.free_eq, (hpoint.mono (Finset.empty_subset _)).trans hreverted.frame⟩
    · exact (unlessBug_runs hpos).bind
        ((lastCluster_concat hv h).bind (hloop.bind (Runs.pure _ _)))
    · simpa [Ended, VolumeOn.link, VolumeOn.point] using hended heq

end GrowFile

end EntropyOS.Libexfat
