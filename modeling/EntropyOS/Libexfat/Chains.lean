import EntropyOS.Libexfat.Layout

/-!
# The clusters of a node

`Chain v node cs` says that the file of a node consists of the clusters `cs`:
those that follow each other in the FAT, or in the heap if the file is
contiguous.  The position that the node remembers is on one of them.
-/

namespace EntropyOS.Libexfat

open EntropyOS.Foundation

structure Chain (v : View) (node : Nat) (cs : List Nat) : Prop where
  valid : ∀ c ∈ cs, v.sb.Valid c
  nodup : cs.Nodup
  links : cs.IsChain fun a b => v.next node a = b
  start : (v.nodes node).startCluster = cs.headD clusterFree
  pointer : cs[(v.nodes node).fptrIndex]? = some (v.nodes node).fptrCluster ∨
    cs = [] ∧ (v.nodes node).fptrIndex = 0

/-- What the last cluster of a chain leads to makes no difference. -/
theorem isChain_of_dropLast {f g : Nat → Nat} {cs : List Nat}
    (h : cs.IsChain fun a b => f a = b) (heq : ∀ a ∈ cs.dropLast, g a = f a) :
    cs.IsChain fun a b => g a = b := by
  rw [List.isChain_iff_getElem] at h ⊢
  intro i hi
  have hlt : i < cs.dropLast.length := by
    rw [List.length_dropLast]
    omega
  have hmem : cs[i] ∈ cs.dropLast := by
    rw [← List.getElem_dropLast hlt]
    exact List.getElem_mem hlt
  rw [heq _ hmem, h i hi]

/-- The link of the last cluster ends the chain, if it is in use. -/
def Ended (v : View) (node : Nat) (cs : List Nat) : Prop :=
  (v.nodes node).isContiguous = false →
    ∀ c, cs.getLast? = some c → v.link c = clusterEnd

structure Node.SamePlace (node node' : Node) : Prop where
  startCluster : node'.startCluster = node.startCluster
  fptrIndex : node'.fptrIndex = node.fptrIndex
  fptrCluster : node'.fptrCluster = node.fptrCluster
  isContiguous : node'.isContiguous = node.isContiguous

theorem Node.SamePlace.of_eq {node node' : Node} (h : node' = node) :
    node.SamePlace node' := by
  subst h
  exact ⟨rfl, rfl, rfl, rfl⟩

section Congruence

variable {v v' : View} {node : Nat} {cs : List Nat}

theorem Chain.congr (h : Chain v node cs)
    (hplace : (v.nodes node).SamePlace (v'.nodes node))
    (hlink : ∀ c ∈ cs, v'.link c = v.link c) (hsb : v'.sb = v.sb) :
    Chain v' node cs := by
  refine ⟨?_, h.nodup, ?_, ?_, ?_⟩
  · rw [hsb]
    exact h.valid
  · refine h.links.imp_of_mem_imp fun a b ha _ heq => ?_
    simpa only [VolumeOn.next, hplace.isContiguous, hlink a ha] using heq
  · rw [hplace.startCluster, h.start]
  · rw [hplace.fptrIndex, hplace.fptrCluster]
    exact h.pointer

theorem Ended.congr (h : Ended v node cs)
    (hplace : (v.nodes node).SamePlace (v'.nodes node))
    (hlink : ∀ c ∈ cs, v'.link c = v.link c) : Ended v' node cs := by
  intro hcontiguous c hc
  rw [hplace.isContiguous] at hcontiguous
  rw [hlink c (List.mem_of_getLast? hc), h hcontiguous c hc]

end Congruence

section Positions

variable {v : View} {node i : Nat} {cs : List Nat}

@[simp] theorem VolumeOn.point_point (v : View) (node i j c d : Nat) :
    (v.point node i c).point node j d = v.point node j d := by
  simp [VolumeOn.point]

@[simp] theorem VolumeOn.point_sb (v : View) (node i c : Nat) :
    (v.point node i c).sb = v.sb := rfl

@[simp] theorem VolumeOn.point_next (v : View) (node i c a : Nat) :
    (v.point node i c).next node a = v.next node a := by
  simp [VolumeOn.next, VolumeOn.point, VolumeOn.link]

@[simp] theorem VolumeOn.point_isContiguous (v : View) (node i c : Nat) :
    ((v.point node i c).nodes node).isContiguous = (v.nodes node).isContiguous := by
  simp [VolumeOn.point]

@[simp] theorem VolumeOn.point_startCluster (v : View) (node i c : Nat) :
    ((v.point node i c).nodes node).startCluster = (v.nodes node).startCluster := by
  simp [VolumeOn.point]

theorem VolumeOn.point_self (v : View) (node : Nat) :
    v.point node (v.nodes node).fptrIndex (v.nodes node).fptrCluster = v :=
  v.setNode_self node

namespace Chain

variable (h : Chain v node cs)

include h

theorem length_le : cs.length ≤ v.sb.clusterCount := by
  have hsub : cs.toFinset ⊆
      Finset.Ico firstDataCluster (v.sb.clusterCount + firstDataCluster) := by
    intro c hc
    rw [List.mem_toFinset] at hc
    exact Finset.mem_Ico.mpr (h.valid c hc)
  have hcard := Finset.card_le_card hsub
  rwa [List.toFinset_card_of_nodup h.nodup, Nat.card_Ico, Nat.add_sub_cancel] at hcard

theorem next_getElem (hi : i + 1 < cs.length) : v.next node cs[i] = cs[i + 1] :=
  List.isChain_iff_getElem.mp h.links i hi

theorem start_ne_free (hne : cs ≠ []) :
    (v.nodes node).startCluster ≠ clusterFree := by
  obtain ⟨c, rest, rfl⟩ := List.exists_cons_of_ne_nil hne
  have hvalid := (h.valid c (by simp)).1
  simp only [h.start, List.headD_cons, clusterFree]
  simp only [firstDataCluster] at hvalid
  omega

theorem start_eq_getElem (hpos : 0 < cs.length) :
    (v.nodes node).startCluster = cs[0] := by
  rw [h.start, List.headD_eq_head?_getD, List.head?_eq_getElem?,
    List.getElem?_eq_getElem hpos]
  rfl

theorem point (hi : i < cs.length) : Chain (v.point node i cs[i]) node cs where
  valid := h.valid
  nodup := h.nodup
  links := by simpa using h.links
  start := by simpa [VolumeOn.point] using h.start
  pointer := .inl (by simp [VolumeOn.point, hi])

theorem exists_pointer (hne : cs ≠ []) : ∃ i, ∃ hi : i < cs.length,
    (v.nodes node).fptrIndex = i ∧ (v.nodes node).fptrCluster = cs[i] := by
  rcases h.pointer with hsome | ⟨hnil, -⟩
  · obtain ⟨hi, heq⟩ := List.getElem?_eq_some_iff.mp hsome
    exact ⟨_, hi, rfl, heq.symm⟩
  · exact absurd hnil hne

end Chain

end Positions

section Advance

variable {v : View} {node : Nat} {cs : List Nat}

theorem rewind_runs (h : Chain v node cs) {count : Nat} (hcount : count < cs.length) :
    ∃ i, ∃ hi : i < cs.length, i ≤ count ∧
      Runs Shows v (rewind node count) () (v.point node i cs[i]) := by
  obtain ⟨i, hi, hindex, hcluster⟩ := h.exists_pointer (List.ne_nil_of_length_pos (by omega))
  by_cases hback : (v.nodes node).fptrIndex > count
  · refine ⟨0, by omega, by omega, (getNode_runs node).bind (Runs.if_pos hback ?_)⟩
    rw [← h.start_eq_getElem (by omega)]
    exact modifyNode_runs node _
  · refine ⟨i, hi, by omega, (getNode_runs node).bind (Runs.if_neg hback ?_)⟩
    have hself := v.point_self node
    rw [hcluster, hindex] at hself
    rw [hself]
    exact Runs.pure v ()

theorem advanceLoop_runs (hsb : v.sb.Sane) (h : Chain v node cs) {i : Nat}
    (rounds index : Nat) (hi : i + rounds < cs.length) :
    Runs Shows (v.point node index cs[i]) (advanceLoop node rounds) ()
      (v.point node index cs[i + rounds]) := by
  induction rounds generalizing i with
  | zero => exact Runs.pure _ _
  | succ rounds ih =>
      have hvalid : ∀ j, ∀ hj : j < cs.length, v.sb.Valid cs[j] :=
        fun j hj => h.valid _ (List.getElem_mem hj)
      have hnext := nextCluster_runs (v := v.point node index cs[i]) node hsb
        (hvalid i (by omega))
      rw [VolumeOn.point_next, h.next_getElem (by omega)] at hnext
      have hmove := modifyNode_runs (v := v.point node index cs[i]) node
        fun n => { n with fptrCluster := cs[i + 1] }
      have hpoint : (v.point node index cs[i]).setNode node
          { (v.point node index cs[i]).nodes node with fptrCluster := cs[i + 1] } =
            v.point node index cs[i + 1] := by simp [VolumeOn.point]
      rw [hpoint] at hmove
      refine get_runs fun d => Runs.bind ?_ (hmove.bind ?_)
      · simpa [VolumeOn.point] using hnext
      refine Runs.if_neg (by simpa using hvalid (i + 1) (by omega)) ?_
      have hrest := ih (i := i + 1) (by omega)
      simpa only [Nat.add_assoc, Nat.add_comm 1 rounds] using hrest

theorem advanceCluster_runs (hsb : v.sb.Sane) (h : Chain v node cs) {count : Nat}
    (hcount : count < cs.length) :
    Runs Shows v (advanceCluster node count) cs[count]
      (v.point node count cs[count]) := by
  obtain ⟨i, hi, hle, hrewind⟩ := rewind_runs h hcount
  have hsum : i + (count - i) = count := by omega
  have hloop := advanceLoop_runs hsb h (i := i) (count - i) i (by omega)
  have hmove := modifyNode_runs (v := v.point node i cs[count]) node
    fun n => { n with fptrIndex := count }
  refine hrewind.bind ((getNode_runs node).bind ?_)
  have hpoint : (v.point node i cs[count]).setNode node
      { (v.point node i cs[count]).nodes node with fptrIndex := count } =
        v.point node count cs[count] := by simp [VolumeOn.point]
  rw [hpoint] at hmove
  refine Runs.bind (a := ()) ?_ (hmove.bind ?_)
  · simpa [VolumeOn.point, hsum] using hloop
  refine (getNode_runs node).bind ?_
  simp only [VolumeOn.point, VolumeOn.setNode_nodes_self]
  exact Runs.pure _ _

end Advance

end EntropyOS.Libexfat
