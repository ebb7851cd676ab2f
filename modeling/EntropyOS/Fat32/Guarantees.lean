import EntropyOS.Fat32.Leak

/-!
# What holds throughout a session

As long as every call finds the clusters it needs below the end marks, the
volume keeps its structure and its free count stays right; and if no call
drops a directory that still has entries, no cluster is lost.  Each condition
is needed: the last section runs into both limits.
-/

namespace EntropyOS.Fat32

open EntropyOS.Foundation

section Sessions

variable {total : UInt64} {label : Option (List UInt8)} {s : System}

/-- Chains, names, sizes and dot entries are sound in every state. -/
theorem session_keeps_structure (h : Formattable total.toNat)
    (hs : Session total label (fun v c => c.HasRoom v) s) :
    (volumeOf s).Regular :=
  (Session.invariant (P := fun _ => True) h (fun _ _ hok => hok)
    (fun _ _ => trivial) (fun _ _ _ _ _ _ _ => trivial) hs).2.1

/-- Every cluster in use is owned by the root or by a live entry. -/
theorem session_loses_no_cluster (h : Formattable total.toNat)
    (hs : Session total label (fun v c => c.HasRoom v ∧ c.KeepsTree v) s) :
    (volumeOf s).NoLost := by
  refine (Session.invariant (P := Volume.NoLost) h (fun _ _ hok => hok.1) ?_ ?_
    hs).2.2
  · exact fun v hfresh => hfresh.noLost h.root
  · exact fun v c v' hv hlost hok houtcome => houtcome.noLost hv hok.2 hlost

/-- The cached count and the stored one are the number of free clusters. -/
theorem session_counts_free_clusters (h : Formattable total.toNat)
    (hs : Session total label (fun v c => c.HasRoom v) s) :
    s.fat32.freeClusters = (volumeOf s).freeList.length ∧
      readLe (volumeSector s 1).toBuf 488 4 = (volumeOf s).freeList.length := by
  have hcounted := (Session.invariant
    (P := fun v => v.fs.totalClusters < 4294967295 ∧ v.Counted) h
    (fun _ _ hok => hok) ?_ ?_ hs).2.2.2
  · have hreserved := hs.reserved h fun _ _ hok => hok
    have hinfo : (volumeOf s).info = volumeSector s 1 :=
      if_pos (le_trans (by decide) hreserved)
    exact ⟨hcounted.balanced, hinfo ▸ hcounted.stored⟩
  · intro v hfresh
    refine ⟨?_, hfresh.counted h.root⟩
    have hclusters := h.clusters_le
    have hlt := h.lt
    rw [hfresh.fs]
    change formatClusters total.toNat < 4294967295
    omega
  · rintro v c v' hv ⟨hsmall, hcounted⟩ - houtcome
    obtain ⟨n, l, p, old, new, hchange⟩ := houtcome.change hv.wellFormed
    refine ⟨?_, houtcome.counted hsmall hcounted⟩
    rw [hchange.fs]
    exact hsmall

end Sessions

private theorem exists_small_session (ok : Volume → Call → Prop)
    (hok : ∀ v, v.Leaked 8 0 → ok v (.createDirectoryIn 2 roundDirectory)) :
    ∃ s, Session 100 none ok s ∧ ∃ q ∈ places [2], ((volumeOf s).entry q).InUse := by
  have h : Formattable (100 : UInt64).toNat := by decide
  obtain ⟨v, hv, hlayout, hfresh⟩ := exists_reaches_fresh h none ok
  have hleaked : v.Leaked 8 0 := hfresh.leaked hlayout (by decide)
  obtain ⟨w, p, hcreate, hw, -⟩ := hleaked.create
  obtain ⟨s, hs, hrep⟩ := hv.call (c := .createDirectoryIn 2 roundDirectory)
    ⟨roundDirectory_ascii, _, hleaked.directory⟩ (hok v hleaked) hcreate
  obtain ⟨-, -, heq⟩ := represents_iff.mp hrep
  rw [← heq] at hw
  exact ⟨s, hs, p, hw.mem, hw.inUse⟩

private theorem small_hasRoom {v : Volume} (h : v.Leaked 8 0) :
    (Call.createDirectoryIn 2 roundDirectory).HasRoom v := by
  have hrelease : v.release [] = v := rfl
  rw [Call.HasRoom, Volume.room_eq, hrelease, h.free]
  decide

theorem structure_after_mkdir :
    ∃ s, Session 100 none (fun v c => c.HasRoom v) s ∧ (volumeOf s).Regular := by
  obtain ⟨s, hs, -⟩ := exists_small_session _ fun v hv => small_hasRoom hv
  exact ⟨s, hs, session_keeps_structure (by decide) hs⟩

theorem clusters_kept_after_mkdir :
    ∃ s, Session 100 none (fun v c => c.HasRoom v ∧ c.KeepsTree v) s ∧
      (volumeOf s).NoLost := by
  obtain ⟨s, hs, -⟩ := exists_small_session (fun v c => c.HasRoom v ∧ c.KeepsTree v)
    fun v hv => ⟨small_hasRoom hv, trivial⟩
  exact ⟨s, hs, session_loses_no_cluster (by decide) hs⟩

theorem count_right_after_mkdir :
    ∃ s, Session 100 none (fun v c => c.HasRoom v) s ∧
      s.fat32.freeClusters = (volumeOf s).freeList.length ∧
      readLe (volumeSector s 1).toBuf 488 4 = (volumeOf s).freeList.length := by
  obtain ⟨s, hs, -⟩ := exists_small_session _ fun v hv => small_hasRoom hv
  exact ⟨s, hs, session_counts_free_clusters (by decide) hs⟩

/-! ## The limits -/

/-- One byte stored in a directory that `fat32_delete_file` then removes. -/
theorem delete_file_loses_a_cluster :
    ¬ ∀ (total : UInt64) (label : Option (List UInt8)) (s : System),
      Formattable total.toNat → Session total label (fun _ _ => True) s →
      (volumeOf s).NoLost := by
  intro hclaim
  have h : Formattable (100 : UInt64).toNat := by decide
  obtain ⟨v, hv, hlayout, hfresh⟩ := exists_reaches_fresh h none fun _ _ => True
  have hleaked : v.Leaked 8 0 := hfresh.leaked hlayout (by decide)
  obtain ⟨w, ⟨s, hs, hrep⟩, hw⟩ := hv.round hleaked
    (show ([0] : List UInt8).length < 4294967296 by decide) (by decide) (by decide)
  obtain ⟨-, -, heq⟩ := represents_iff.mp hrep
  have hlost := hclaim 100 none s h hs
  rw [heq] at hlost
  have hfour : w.fs.InRange 4 := by
    rw [Fs.InRange, hw.totalClusters]
    decide
  have hused : w.link 4 ≠ free := by
    intro hfree
    have hmem := Volume.mem_freeList.mpr ⟨hfour, hfree⟩
    rw [hw.free] at hmem
    exact absurd hmem (by decide)
  obtain ⟨n, l, hn, hl, hmem⟩ := hlost 4 hfour hused
  rw [hw.reach_iff] at hn
  subst hn
  rw [Volume.first, hw.rootCluster] at hl
  obtain rfl := hl.unique hw.directory.chain
  exact absurd hmem (by decide)

/--
The clusters up to 0x0FFFFFF7 are used up, and the last cluster of the next
file has a number that every reader takes for the end of the chain.
-/
theorem chain_cut_at_end_mark :
    ¬ ∀ (total : UInt64) (label : Option (List UInt8)) (s : System),
      Formattable total.toNat → Session total label (fun _ _ => True) s →
      (volumeOf s).Regular := by
  intro hclaim
  obtain ⟨h, v, p, data, hv, hleaked, hdata, hcount, htarget, htaken, hexec⟩ :=
    exists_large_write 1048565 (by decide)
  have hp := htarget.mem
  obtain ⟨s, hs, hrep⟩ := hv.call (c := .writeFileIn 2 roundFile data)
    ⟨roundFile_ascii, by omega, _, hleaked.directory⟩ trivial hexec
  obtain ⟨-, -, heq⟩ := represents_iff.mp hrep
  have hregular := hclaim _ none s h hs
  rw [heq] at hregular
  have hentry := v.written_entry p [] (nameToFat roundFile) data
    (mem_places.mp hp).2
  rw [if_pos rfl] at hentry
  -- the clusters a reader follows, one less than the file has
  have hsplit : v.taken [] data.length =
      (3 :: List.range' (4 + 267386880) 1048564) ++ eoc :: [] := by
    have hlast : 4 + 267386880 + 1048564 = eoc := by decide
    rw [htaken, List.range'_1_concat, List.cons_append, hlast]
  have hlow : ∀ d ∈ 3 :: List.range' (4 + 267386880) 1048564, d < eoc := by
    intro d hd
    rw [List.mem_cons, List.mem_range'_1] at hd
    simp only [eoc]
    omega
  have hwalk : Walk (v.written p [] (nameToFat roundFile) data).link Live 3
      (3 :: List.range' (4 + 267386880) 1048564) eoc :=
    Volume.written_cut hsplit (by simp) hlow le_rfl (by decide)
  have hroot := hregular.chain_singleton .root trivial
  have hfirst : (v.written p [] (nameToFat roundFile) data).first .root = 2 := by
    rw [Volume.first, Volume.written_fs, hleaked.rootCluster]
  rw [hfirst] at hroot
  have huse : (v.fileEntry [] (nameToFat roundFile) data).InUse :=
    make_inUse roundFile_ascii _ _ _
  have hreach : (v.written p [] (nameToFat roundFile) data).Reach (.entry p) := by
    refine .child .root ⟨trivial, ⟨[2], by rwa [hfirst], hp⟩, ?_, ?_⟩
    · rwa [hentry]
    · rw [hentry]
      exact make_not_isDot _ _ _ _
  have hfile : ¬ (v.written p [] (nameToFat roundFile) data).IsDir (.entry p) := by
    rw [Volume.IsDir, hentry]
    exact Volume.make_archive_not_isDir _ _ _
  obtain ⟨l, hl⟩ := hregular.wellFormed.chain _ hreach
  have hlength := hregular.sized p l hreach hfile hl
  obtain ⟨last, hwalk', -⟩ := hl.ends
  have hstart : (v.written p [] (nameToFat roundFile) data).first (.entry p) = 3 := by
    rw [Volume.first, hentry, Volume.fileEntry, htaken]
    exact DirEntry.make_firstCluster _ _ _ (by decide)
  rw [hstart] at hwalk'
  obtain ⟨rfl, -⟩ := hwalk'.unique hwalk
  rw [hentry, List.length_cons, List.length_range',
    Volume.fileEntry_fileSize _ _ _ (by omega), hcount] at hlength
  exact absurd hlength (by decide)

/--
One cluster further, the link to cluster 2^28 is stored as 0: a cluster of the
file is marked free and the count knows nothing of it.
-/
theorem count_drifts_past_28_bits :
    ¬ ∀ (total : UInt64) (label : Option (List UInt8)) (s : System),
      Formattable total.toNat → Session total label (fun _ _ => True) s →
      s.fat32.freeClusters = (volumeOf s).freeList.length ∧
        readLe (volumeSector s 1).toBuf 488 4 =
          (volumeOf s).freeList.length := by
  intro hclaim
  obtain ⟨h, v, p, data, hv, hleaked, hdata, -, -, htaken, hexec⟩ :=
    exists_large_write 1048573 (by decide)
  obtain ⟨s, hs, hrep⟩ := hv.call (c := .writeFileIn 2 roundFile data)
    ⟨roundFile_ascii, by omega, _, hleaked.directory⟩ trivial hexec
  obtain ⟨-, -, heq⟩ := represents_iff.mp hrep
  have hequal : (volumeOf s).freeClusters = (volumeOf s).freeList.length :=
    (hclaim _ none s h hs).1
  rw [heq] at hequal
  -- `rest` is still free, and so is 0x0FFFFFFF
  have hsplit : v.taken [] data.length =
      (3 :: List.range' (4 + 267386880) 1048571) ++
        0x0FFFFFFF :: 268435456 :: [] := by
    have hlast : 4 + 267386880 + 1048571 = 0x0FFFFFFF := by decide
    have hlast' : 4 + 267386880 + 1048572 = 268435456 := by decide
    rw [htaken, List.range'_1_concat, List.range'_1_concat, hlast, hlast',
      List.append_assoc]
    simp only [List.cons_append, List.nil_append]
  have hlink : (v.written p [] (nameToFat roundFile) data).link 0x0FFFFFFF =
      free := by
    rw [Volume.written_link_next hsplit, Nat.mod_self]
    rfl
  have hsubset : 0x0FFFFFFF :: List.range' 268435457 6028478 ⊆
      (v.written p [] (nameToFat roundFile) data).freeList := by
    intro c hc
    have hrange : c < 274463935 := by
      rw [List.mem_cons, List.mem_range'_1] at hc
      omega
    rw [Volume.mem_freeList, Volume.written_fs, Fs.InRange, hleaked.totalClusters]
    rcases List.mem_cons.mp hc with rfl | hc
    · exact ⟨by decide, hlink⟩
    · rw [List.mem_range'_1] at hc
      have hfresh : c ∉ v.taken [] data.length := by
        rw [htaken, List.mem_cons, List.mem_range'_1]
        omega
      have hmem : c ∈ v.freeList := by
        rw [hleaked.free, List.mem_cons, List.mem_range'_1]
        omega
      rw [Volume.written_link hfresh, if_neg (by simp)]
      exact ⟨by omega, (Volume.mem_freeList.mp hmem).2⟩
  have hnodup : (0x0FFFFFFF :: List.range' 268435457 6028478).Nodup := by
    refine List.nodup_cons.mpr ⟨?_, List.nodup_range'⟩
    rw [List.mem_range'_1]
    omega
  have hmore := (List.subperm_of_subset hnodup hsubset).length_le
  rw [List.length_cons, List.length_range', ← hequal] at hmore
  have hbefore : v.freeClusters = 7077052 := by
    have hbalanced := hleaked.counted.balanced
    rw [Volume.Balanced, hleaked.free, List.length_cons,
      List.length_range'] at hbalanced
    exact hbalanced
  have hafter : (v.written p [] (nameToFat roundFile) data).freeClusters =
      7077052 - 1048574 := by
    have hlength : (v.taken [] data.length).length = 1048574 := by
      rw [htaken, List.length_cons, List.length_range']
    have hfill := Volume.fill_count (v := v.release []) (v.taken [] data.length)
      data 0 (show v.freeClusters < unknownCount by rw [hbefore]; decide)
      (show _ ≤ v.freeClusters by rw [hbefore, hlength]; decide)
    rw [hlength, show (v.release []).freeClusters = 7077052 from hbefore] at hfill
    rw [Volume.written, Volume.finish_count]
    exact hfill
  rw [hafter] at hmore
  exact absurd hmore (by decide)

end EntropyOS.Fat32
