import EntropyOS.Libexfat.Sessions

/-!
# What holds of every session on a volume

The results about sessions, for the program that runs on the handle.
-/

namespace EntropyOS.Libexfat

open EntropyOS.Foundation

section Sessions

variable {live reserved : Nat → Prop} {clusters : Nat → List Nat} {ef : Volume} {v : View}
  {d : Store}

/--
Whatever is called on the open files of a sound volume, the answers are those of a
store of files, and the volume holds that store afterwards.
-/
theorem session_refines_store (calls : List Call) (hshows : Shows ef v)
    (h : Represents live reserved clusters v d) (hproper : AllProper live d calls) :
    ∃ ef' v' clusters', runAll calls ef = some ((applyAll d calls).1, ef') ∧
      Shows ef' v' ∧ Represents live reserved clusters' v' (applyAll d calls).2 ∧
      Untouched live reserved v v' := by
  obtain ⟨v', clusters', hrun, hafter, huntouched⟩ := runAll_follows calls h hproper
  obtain ⟨ef', heq, hshows'⟩ := hrun ef hshows
  exact ⟨ef', v', clusters', heq, hshows', hafter, huntouched⟩

end Sessions

/-! ## The free clusters -/

theorem countFree_eq (chunk : Bitmap 64) {rounds i free : Nat}
    (h : free + rounds < 4294967296) :
    countFree chunk rounds i free =
      free + (List.range' i rounds).countP fun j => !chunk.bit j := by
  induction rounds generalizing i free with
  | zero => rfl
  | succ rounds ih =>
      rw [countFree, List.range'_succ, List.countP_cons]
      by_cases hbit : chunk.bit i = false
      · rw [if_pos ((Bitmap.get_eq_zero_iff (by omega) chunk i).mpr hbit),
          u32_of_lt (by omega), ih (by omega)]
        simp [hbit]
        omega
      · rw [if_neg (mt (Bitmap.get_eq_zero_iff (by omega) chunk i).mp hbit), ih (by omega)]
        simp at hbit
        simp [hbit]

theorem card_free (v : View) : v.free.card =
    (List.range' 0 v.sb.clusterCount).countP fun j => !v.cmap.chunk.bit j := by
  have hset : v.free = ((List.range' 0 v.sb.clusterCount).filter
      fun j => !v.cmap.chunk.bit j).toFinset.map (addRightEmbedding firstDataCluster) := by
    ext c
    simp only [VolumeOn.mem_free, Finset.mem_map, List.mem_toFinset, List.mem_filter,
      List.mem_range'_1, addRightEmbedding_apply, SuperBlock.Valid]
    constructor
    · rintro ⟨⟨hlow, hhigh⟩, hbit⟩
      exact ⟨c - firstDataCluster, ⟨⟨by omega, by omega⟩, by simpa using hbit⟩, by omega⟩
    · rintro ⟨j, ⟨⟨-, hhigh⟩, hbit⟩, rfl⟩
      exact ⟨⟨by omega, by omega⟩, by simpa using hbit⟩
  rw [hset, Finset.card_map, List.toFinset_card_of_nodup
    ((List.nodup_range' ..).filter _), List.countP_eq_length_filter]

theorem countFreeClusters_runs {v : View} (hv : Mounted v) :
    Runs Shows v countFreeClusters v.free.card v := by
  refine get_runs fun d => ?_
  have hcount := hv.sane.count_le
  rw [card_free, hv.size_eq, countFree_eq v.cmap.chunk (by omega), Nat.zero_add]
  exact Runs.pure v _

/-- What `exfat_count_free_clusters` returns after any session. -/
theorem free_clusters_counted {owners taken : Finset Nat} {clusters : Nat → List Nat}
    {ef : Volume} {v : View} {d : Store} (calls : List Call) (hshows : Shows ef v)
    (h : Represents (· ∈ owners) (· ∈ taken) clusters v d)
    (htaken : ∀ c ∈ taken, v.sb.Valid c) (hproper : AllProper (· ∈ owners) d calls) :
    ∃ answers ef', runAll calls ef = some (answers, ef') ∧
      Returns countFreeClusters ef' (v.sb.clusterCount - taken.card -
        ∑ n ∈ owners, d.clustersFor ((applyAll d calls).2.text n).bytes.length) := by
  obtain ⟨v', clusters', hsession, hafter, huntouched⟩ := runAll_follows calls h hproper
  obtain ⟨ef', hrun, hshows'⟩ := hsession ef hshows
  have hsb := huntouched.settings.sb_eq
  refine ⟨_, ef', hrun, ?_⟩
  have hlength : ∀ n ∈ owners, (clusters' n).length =
      d.clustersFor ((applyAll d calls).2.text n).bytes.length := by
    intro n hn
    rw [h.clustersFor_eq, ← hsb, hafter.length_eq hn, (hafter.sound.file n hn).length_eq]
  have hcard := hafter.sound.owned.card_add_sum
    (Finset.Ico firstDataCluster (v.sb.clusterCount + firstDataCluster))
    (fun c => by rw [Finset.mem_Ico, hsb]; rfl)
    (fun n hn => (hafter.sound.file n hn).chain.nodup)
    (fun c hc => Finset.mem_Ico.mpr (htaken c hc))
  rw [Finset.sum_congr rfl hlength, Nat.card_Ico, Nat.add_sub_cancel] at hcard
  have hreturns := (countFreeClusters_runs hafter.sound.mounted).returns hshows'
  rwa [show v.sb.clusterCount - taken.card -
    ∑ n ∈ owners, d.clustersFor ((applyAll d calls).2.text n).bytes.length =
      v'.free.card by omega]

/-! ## The next free cluster -/

/-- How many clusters a search in a circle from the hint on passes before `cluster`. -/
def passed (count hint cluster : Nat) : Nat :=
  (cluster - firstDataCluster + count - hintIndex count hint) % count

theorem NextFree.passed_le {bitmap : Bitmap 64} {count hint i j : Nat}
    (h : NextFree bitmap (hintIndex count hint) count (some i)) (hj : j < count)
    (hbit : bitmap.bit j = false) :
    passed count hint (i + firstDataCluster) ≤ passed count hint (j + firstDataCluster) := by
  have hhint := hintIndex_le count hint
  obtain ⟨later, hlater, earlier, hearlier, heq⟩ := h
  have hmod : ∀ k < count, (k + count - hintIndex count hint) % count =
      if hintIndex count hint ≤ k then k - hintIndex count hint
      else k + count - hintIndex count hint := by
    intro k hk
    split
    · next hle =>
        rw [show k + count - hintIndex count hint = k - hintIndex count hint + count by omega,
          Nat.add_mod_right, Nat.mod_eq_of_lt (by omega)]
    · exact Nat.mod_eq_of_lt (by omega)
  simp only [passed, Nat.add_sub_cancel]
  cases later with
  | some c =>
      cases heq
      obtain ⟨hlow, hhigh, -, hbefore⟩ := hlater
      rw [hmod i hhigh, hmod j hj, if_pos hlow]
      split
      · next hle =>
          by_contra hlt
          simp [hbefore j hle (by omega)] at hbit
      · omega
  | none =>
      rw [Option.none_or] at heq
      subst heq
      obtain ⟨-, hhigh, -, hbefore⟩ := hearlier
      have hjlow : j < hintIndex count hint := by
        by_contra hle
        simp [hlater j (by omega) hj] at hbit
      rw [hmod i (by omega), hmod j hj, if_neg (by omega), if_neg (by omega)]
      by_contra hlt
      simp [hbefore j (Nat.zero_le j) (by omega)] at hbit

/--
`allocate_cluster` takes the free cluster that comes first in a circle from the hint
on, and it reports that none is left only where none is.
-/
theorem allocation_takes_next_free {ef : Volume} {v : View} (hshows : Shows ef v)
    (hv : Mounted v) (hint : Nat) :
    (v.free = ∅ ∧ Returns (allocateCluster hint) ef clusterEnd) ∨
    ∃ c ∈ v.free, (∀ other ∈ v.free, passed v.sb.clusterCount hint c ≤
        passed v.sb.clusterCount hint other) ∧
      ∃ ef', allocateCluster hint ef = some (c, ef') ∧ Shows ef' (v.take c) ∧
        (v.take c).free = v.free.erase c := by
  rcases allocateCluster_runs hv hint with ⟨i, hnext, hmem, hrun⟩ | ⟨hempty, hrun⟩
  · obtain ⟨ef', heq, hshows'⟩ := hrun ef hshows
    refine .inr ⟨_, hmem, fun other hother => ?_, ef', heq, hshows',
      VolumeOn.take_free (VolumeOn.valid_of_mem_free hmem)⟩
    obtain ⟨⟨hlow, hhigh⟩, hbit⟩ := VolumeOn.mem_free.mp hother
    have hle := hnext.passed_le (j := other - firstDataCluster) (by omega) hbit
    rwa [Nat.sub_add_cancel hlow] at hle
  · exact .inl ⟨hempty, hrun.returns hshows⟩

/-! ## A small store -/

def smallStore (free : Nat) : Store := ⟨512, free, fun _ => ⟨[], 0⟩⟩

theorem smallView_free : smallView.free = Finset.Ico 2 10 := by
  ext c
  rw [VolumeOn.mem_free, Finset.mem_Ico]
  simp [smallView, Bitmap.bit, SuperBlock.Valid, smallSuperBlock_clusterCount,
    firstDataCluster]

/-- A volume without files, where the clusters that are not free are reserved. -/
theorem empty_represents {v : View} (live reserved : Nat → Prop) (hv : Mounted v)
    (hsize : v.sb.clusterSize = 512)
    (hnodes : ∀ n, live n → ∃ attrib, v.nodes n = { emptyNode with attrib := attrib })
    (hfree : ∀ c, c ∈ v.free ↔ v.sb.Valid c ∧ ¬ reserved c) :
    Represents live reserved (fun _ => []) v (smallStore v.free.card) := by
  have hzero : v.sb.clustersFor 0 = 0 := by simp [SuperBlock.clustersFor, hsize]
  refine ⟨⟨hv, fun n hn => ?_, fun n hn => ?_, ?_⟩, hsize.symm, rfl, fun n hn => ?_⟩
  · obtain ⟨attrib, hnode⟩ := hnodes n hn
    refine ⟨⟨by simp, List.nodup_nil, .nil, ?_, .inr ⟨rfl, ?_⟩⟩, fun _ c hc => ?_, ?_, ?_⟩
    · rw [hnode]
      rfl
    · rw [hnode]
      rfl
    · simp at hc
    · rw [hnode]
      exact hzero.symm
    · rw [hnode]
      exact le_rfl
  · obtain ⟨attrib, hnode⟩ := hnodes n hn
    simp [Node.InUse, hnode, emptyNode]
  · exact ⟨by simp, by simp, by simp, fun c => by simpa using hfree c⟩
  · obtain ⟨attrib, hnode⟩ := hnodes n hn
    rw [VolumeOn.text, hnode]
    rfl

theorem smallView_mounted : Mounted smallView :=
  ⟨⟨by decide, by decide, by decide⟩, by decide, by decide, fun _ _ => rfl⟩

theorem smallView_represents (live : Nat → Prop) :
    Represents live (· ∈ (∅ : Finset Nat)) (fun _ => []) smallView (smallStore 8) := by
  have h := empty_represents live (· ∈ (∅ : Finset Nat)) smallView_mounted
    (by decide) (fun _ _ => ⟨0, rfl⟩) fun c => by simp [VolumeOn.mem_free, smallView, Bitmap.bit]
  rwa [smallView_free] at h

theorem small_session :
    ∃ ef', runAll [.write 1 [1, 2, 3] 0, .write 2 [7] 2, .read 1 9 1, .read 2 9 0]
        smallVolume = some ([(3, []), (1, []), (2, [2, 3]), (3, [0, 0, 7])], ef') := by
  obtain ⟨ef', -, -, hrun, -⟩ := session_refines_store
    [.write 1 [1, 2, 3] 0, .write 2 [7] 2, .read 1 9 1, .read 2 9 0] smallVolume_shows
    (smallView_represents fun _ => True) (by decide)
  exact ⟨ef', hrun⟩

/-- A session that leaves two of the eight clusters in use. -/
theorem small_volume_counted :
    ∃ answers ef', runAll [.write 1 [1, 2, 3] 0, .write 2 [7] 2] smallVolume =
        some (answers, ef') ∧ Returns countFreeClusters ef' 6 :=
  free_clusters_counted _ smallVolume_shows (smallView_represents (· ∈ ({1, 2} : Finset Nat)))
    (by simp) (by decide)

/-- The search starts at the hint, which is the cluster behind the last one. -/
theorem small_volume_allocates :
    ∃ ef', allocateCluster 5 smallVolume = some (5, ef') := by
  have hsound := (smallView_represents fun _ => True).sound
  obtain ⟨hempty, -⟩ | ⟨c, hc, hfirst, ef', hrun, -⟩ :=
    allocation_takes_next_free smallVolume_shows hsound.mounted 5
  · simp [smallView_free] at hempty
  · have hcount : smallView.sb.clusterCount = 8 := smallSuperBlock_clusterCount
    simp only [smallView_free, hcount] at hc hfirst
    have hnext : ∀ c ∈ Finset.Ico 2 10, passed 8 5 c ≤ passed 8 5 5 → c = 5 := by decide
    have hfive := hfirst 5 (by decide)
    have heq : c = 5 := hnext c hc hfive
    subst heq
    exact ⟨ef', hrun⟩

end EntropyOS.Libexfat
