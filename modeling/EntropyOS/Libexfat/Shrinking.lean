import EntropyOS.Libexfat.Frames

/-!
# Shrinking a file

`shrink_file` keeps the first clusters of a file and frees the others.
-/

namespace EntropyOS.Libexfat

open EntropyOS.Foundation

section Loop

variable {node : Nat}

/-- The clusters are freed in the order of their links. -/
theorem shrinkLoop_runs {dropped : List Nat} {v : View} (hv : Mounted v)
    (hvalid : ∀ c ∈ dropped, v.sb.Valid c) (hnodup : dropped.Nodup)
    (hlinks : dropped.IsChain fun a b => v.next node a = b) (previous : Nat)
    (hprevious : ∀ c, dropped.head? = some c → previous = c) :
    ∃ v', Runs Shows v (shrinkLoop node dropped.length previous) 0 v' ∧
      Frame node dropped.toFinset v v' ∧ v'.nodes = v.nodes ∧
      v'.free = v.free ∪ dropped.toFinset := by
  induction dropped generalizing v previous with
  | nil => exact ⟨v, Runs.pure v _, .refl _ _ _, rfl, by simp⟩
  | cons c rest ih =>
      obtain rfl : previous = c := hprevious c rfl
      have hc : v.sb.Valid previous := hvalid previous (by simp)
      have hfresh := (List.nodup_cons.mp hnodup).1
      let contiguous := (v.nodes node).isContiguous
      let linked := v.relink contiguous previous clusterFree
      let w := linked.release previous
      have hlinked : Frame node {previous} v linked := Frame.relink contiguous previous _
      have hframe : Frame node {previous} v w := hlinked.trans (Frame.setChunk _)
      have hnodes : w.nodes = v.nodes := by simp [w, linked]
      have hsb : w.sb = v.sb := hframe.settings.sb_eq
      have hfree : w.free = insert previous v.free := by
        have hsame : linked.free = v.free :=
          VolumeOn.free_congr (by simp [linked]) (by simp [linked])
        rw [VolumeOn.release_free (by simpa [linked] using hc), hsame]
      have hnext : ∀ a ∈ rest, w.next node a = v.next node a := by
        intro a ha
        have hne : a ∉ ({previous} : Finset Nat) := by
          rw [Finset.mem_singleton]
          rintro rfl
          exact hfresh ha
        simp only [VolumeOn.next, hnodes, hframe.link_eq hne]
      have hrest : rest.IsChain fun a b => w.next node a = b :=
        hlinks.tail.imp_of_mem_imp fun a b ha _ heq => (hnext a ha).trans heq
      obtain ⟨v', hrun, hframe', hnodes', hfree'⟩ := ih (hframe.settings.mounted hv)
        (fun a ha => by rw [hsb]; exact hvalid a (List.mem_cons_of_mem _ ha))
        (List.nodup_cons.mp hnodup).2 hrest (v.next node previous) (by
          intro d hd
          obtain ⟨tail, rfl⟩ := List.head?_eq_some_iff.mp hd
          exact (List.isChain_cons_cons.mp hlinks).1)
      refine ⟨v', get_runs fun d => Runs.if_neg (by simpa using hc) ?_, ?_, ?_, ?_⟩
      · refine (nextCluster_runs node hv.sane hc).bind ?_
        refine (setNextCluster_runs hv.sane hc _ _).bind ?_
        refine Runs.if_neg (by simp) ?_
        refine (freeCluster_runs ?_ ?_).bind hrun
        · exact hlinked.settings.mounted hv
        · simpa using hc
      · exact (hframe.mono (by simp)).trans (hframe'.mono (by simp))
      · rw [hnodes', hnodes]
      · rw [hfree', hfree]
        ext d
        simp

end Loop

section Crop

variable {v : View} {node : Nat} {keep dropped : List Nat}

/-- The file without the clusters that are to be freed, which are still linked. -/
structure Cropped (node : Nat) (keep dropped : List Nat) (v w : View) : Prop where
  frame : Frame node keep.toFinset v w
  free_eq : w.free = v.free
  start : (w.nodes node).startCluster = keep.headD clusterFree
  contiguous : (w.nodes node).isContiguous = (v.nodes node).isContiguous
  ended : Ended w node keep
  next_eq : ∀ c ∈ keep.dropLast ++ dropped, w.next node c = v.next node c

theorem cropFile_nil {first : Nat} {rest : List Nat}
    (h : Chain v node (first :: rest)) :
    ∃ w, Runs Shows v (cropFile node (rest.length + 1) (rest.length + 1)) (.ok first) w ∧
      Cropped node [] (first :: rest) v w := by
  let node' := { v.nodes node with startCluster := clusterFree, isDirty := true }
  refine ⟨v.setNode node node', Runs.if_neg (by simp) ((getNode_runs node).bind ?_), ?_⟩
  · refine (modifyNode_runs node _).bind ?_
    rw [h.start]
    exact Runs.pure _ _
  · constructor
    · exact Frame.setNode rfl
    · exact VolumeOn.free_congr rfl rfl
    · simp [node']
    · simp [node']
    · intro _ c hc
      simp at hc
    · intro c _
      simp [VolumeOn.next, VolumeOn.link, node']

theorem cropFile_concat (hv : Mounted v) {front : List Nat} {last first : Nat}
    {rest : List Nat} (h : Chain v node (front ++ [last] ++ first :: rest)) :
    ∃ w, Runs Shows v (cropFile node (front.length + 1 + (rest.length + 1))
        (rest.length + 1)) (.ok first) w ∧
      Cropped node (front ++ [last]) (first :: rest) v w := by
  have hvalid : v.sb.Valid last := h.valid last (by simp)
  have hnext : v.next node last = first := by
    have hlinks := h.links
    rw [List.append_assoc, List.singleton_append, List.isChain_append_cons_cons] at hlinks
    exact hlinks.2.1
  have hlast : front.length < (front ++ [last] ++ first :: rest).length := by simp
  have hadvance := advanceCluster_runs hv.sane h hlast
  rw [List.getElem_append_left (by simp), List.getElem_concat_length rfl] at hadvance
  let w := v.point node front.length last
  let contiguous := (v.nodes node).isContiguous
  have hframe : Frame node {last} v (w.relink contiguous last clusterEnd) :=
    (Frame.point _ _).trans (Frame.relink _ _ _)
  have hfresh : ∀ c ∈ front ++ first :: rest, c ∉ ({last} : Finset Nat) := by
    intro c hc
    rw [Finset.mem_singleton]
    rintro rfl
    have hnodup := h.nodup
    rw [List.append_assoc, List.singleton_append, List.nodup_middle] at hnodup
    exact (List.nodup_cons.mp hnodup).1 hc
  refine ⟨w.relink contiguous last clusterEnd, Runs.if_pos (by omega) ?_, ?_⟩
  · rw [show front.length + 1 + (rest.length + 1) - (rest.length + 1) - 1 = front.length by omega]
    refine hadvance.bind (get_runs fun d => Runs.if_neg (by simpa using hvalid) ?_)
    have hread := nextCluster_runs (v := w) node hv.sane hvalid
    rw [VolumeOn.point_next, hnext] at hread
    have hset := setNextCluster_runs (v := w) hv.sane hvalid
      (w.nodes node).isContiguous clusterEnd
    rw [VolumeOn.point_isContiguous] at hset
    refine hread.bind (Runs.bind (a := true) ?_ (Runs.if_neg (by simp) (Runs.pure _ _)))
    simpa using hset
  · constructor
    · exact hframe.mono (by simp)
    · exact VolumeOn.free_congr (by simp [w]) (by simp [w, VolumeOn.point])
    · simp only [w, VolumeOn.relink_nodes, VolumeOn.point_startCluster, h.start]
      cases front <;> rfl
    · simp [w]
    · intro hcontiguous c hc
      have heq : contiguous = false := by simpa [w] using hcontiguous
      obtain rfl : last = c := by simpa using hc
      rw [heq]
      exact VolumeOn.link_withLink_self (by decide)
    · intro c hc
      rw [List.dropLast_concat] at hc
      simp only [VolumeOn.next, hframe.link_eq (hfresh c hc)]
      simp [w]

theorem cropFile_runs (hv : Mounted v) {first : Nat} {rest : List Nat}
    (h : Chain v node (keep ++ first :: rest)) :
    ∃ w, Runs Shows v (cropFile node (keep.length + (rest.length + 1)) (rest.length + 1))
        (.ok first) w ∧ Cropped node keep (first :: rest) v w := by
  rcases keep.eq_nil_or_concat' with rfl | ⟨front, last, rfl⟩
  · simpa using cropFile_nil h
  · simpa using cropFile_concat hv h

/-- The clusters that are kept are a file again, as soon as the position is reset. -/
theorem Cropped.chain {w : View} (hw : Cropped node keep dropped v w)
    (h : Chain v node (keep ++ dropped)) :
    Chain (w.point node 0 (w.nodes node).startCluster) node keep := by
  refine ⟨?_, h.nodup.of_append_left, ?_, ?_, ?_⟩
  · intro c hc
    rw [VolumeOn.point_sb, hw.frame.settings.sb_eq]
    exact h.valid c (List.mem_append_left _ hc)
  · refine isChain_of_dropLast (List.isChain_append.mp h.links).1 fun a ha => ?_
    rw [VolumeOn.point_next, hw.next_eq a (List.mem_append_left _ ha)]
  · rw [VolumeOn.point_startCluster, hw.start]
  · rw [hw.start]
    cases keep with
    | nil => exact .inr ⟨rfl, by simp [VolumeOn.point]⟩
    | cons c rest => exact .inl (by simp [VolumeOn.point])

theorem shrinkFile_runs (hv : Mounted v) (hne : dropped ≠ [])
    (h : Chain v node (keep ++ dropped)) :
    ∃ v', Runs Shows v (shrinkFile node (keep.length + dropped.length) dropped.length)
        0 v' ∧ Chain v' node keep ∧ Ended v' node keep ∧
      Frame node (keep ++ dropped).toFinset v v' ∧ v'.free = v.free ∪ dropped.toFinset := by
  obtain ⟨first, rest, rfl⟩ := List.exists_cons_of_ne_nil hne
  obtain ⟨w, hcrop, hw⟩ := cropFile_runs hv h
  let u := w.point node 0 (w.nodes node).startCluster
  have hu : Frame node keep.toFinset v u := hw.frame.trans (Frame.point _ _)
  have hsb : u.sb = v.sb := hu.settings.sb_eq
  have hlinks : (first :: rest).IsChain fun a b => u.next node a = b := by
    refine (List.isChain_append.mp h.links).2.1.imp_of_mem_imp fun a b ha _ heq => ?_
    rw [VolumeOn.point_next, hw.next_eq a (List.mem_append_right _ ha), heq]
  obtain ⟨v', hrun, hframe, hnodes, hfree⟩ := shrinkLoop_runs
    (hu.settings.mounted hv)
    (fun c hc => by rw [hsb]; exact h.valid c (List.mem_append_right _ hc))
    h.nodup.of_append_right hlinks first (by simp)
  have hkept : ∀ c ∈ keep, v'.link c = u.link c := fun c hc =>
    hframe.link_eq fun hmem =>
      List.disjoint_of_nodup_append h.nodup hc (List.mem_toFinset.mp hmem)
  refine ⟨v', ?_, ?_, ?_, ?_, ?_⟩
  · have hdirect : (v.nodes node).startCluster ≠ clusterFree :=
      h.start_ne_free (by simp)
    refine (unlessBug_runs (by simp)).bind ((getNode_runs node).bind ?_)
    refine (unlessBug_runs hdirect).bind ((unlessBug_runs (by simp)).bind ?_)
    exact hcrop.bind ((modifyNode_runs node _).bind hrun)
  · exact (hw.chain h).congr (.of_eq (congrFun hnodes node)) hkept hframe.settings.sb_eq
  · refine Ended.congr (v := u) ?_ (.of_eq (congrFun hnodes node)) hkept
    simpa [Ended, u, VolumeOn.link, VolumeOn.point] using hw.ended
  · rw [List.toFinset_append]
    exact (hu.mono Finset.subset_union_left).trans (hframe.mono Finset.subset_union_right)
  · have hsame : u.free = w.free := VolumeOn.free_congr rfl rfl
    rw [hfree, hsame, hw.free_eq]

end Crop

end EntropyOS.Libexfat
