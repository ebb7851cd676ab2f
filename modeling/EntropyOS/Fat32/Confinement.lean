import EntropyOS.Fat32.Footprint
import EntropyOS.Fat32.Hints
import EntropyOS.Fat32.Truthful

/-!
# What a whole call may do

An effect that storing a link and writing a sector of FSInfo or of a cluster
have is an effect of every call, as long as the clusters that the call frees or
rewrites are clusters of the volume.  Nothing is assumed of the disk besides,
nor of the transfers.
-/

namespace EntropyOS.Fat32

open EntropyOS.Foundation

/-! ## The layout -/

/-- The FAT has an entry for every cluster, and all of it fits 32 bits. -/
structure Fs.Fitted (fs : Fs) : Prop where
  sectorsPerCluster : 1 ≤ fs.sectorsPerCluster
  numFats : 1 ≤ fs.numFats
  fatLarge : fs.totalClusters + 2 ≤ 128 * fs.fatSize
  clusterBegin : fs.clusterBeginLba = fs.fatBeginLba + fs.numFats * fs.fatSize
  clustersEnd : fs.clusterBeginLba + fs.totalClusters * fs.sectorsPerCluster <
    4294967296

namespace Fs.Fitted

variable {fs : Fs} (h : fs.Fitted) {c : Nat}

include h

theorem copies_le : fs.fatSize ≤ fs.numFats * fs.fatSize :=
  Nat.le_mul_of_pos_left _ h.numFats

theorem fatSector_eq (hc : c < fs.totalClusters + 2) :
    fs.fatSector c = fs.fatBeginLba + c % 1073741824 / 128 ∧
      c % 1073741824 / 128 < fs.fatSize := by
  have hlarge := h.fatLarge
  have hbegin := h.clusterBegin
  have hend := h.clustersEnd
  have hcopies := h.copies_le
  have hin : c % 1073741824 / 128 < fs.fatSize := by omega
  refine ⟨?_, hin⟩
  have hoffset : u32 (c * 4) / 512 = c % 1073741824 / 128 := by
    simp only [u32]
    omega
  rw [Fs.fatSector, hoffset, u32_of_lt (by omega)]

theorem clusterToLba_eq (hc : fs.InRange c) :
    fs.clusterToLba c =
      fs.clusterBeginLba + (c - 2) * fs.sectorsPerCluster := by
  obtain ⟨hlow, hhigh⟩ := hc
  have hend := h.clustersEnd
  have hpos := h.sectorsPerCluster
  have hdata : (c - 2) * fs.sectorsPerCluster ≤
      fs.totalClusters * fs.sectorsPerCluster :=
    Nat.mul_le_mul_right _ (by omega)
  have htotal : fs.totalClusters ≤ fs.totalClusters * fs.sectorsPerCluster :=
    Nat.le_mul_of_pos_right _ hpos
  have hindex : u32 (c + 4294967294) = c - 2 := by
    simp only [u32]
    omega
  rw [Fs.clusterToLba, hindex, u32_of_lt (by omega)]

theorem total_lt : fs.totalClusters < 4294967296 := by
  have hend := h.clustersEnd
  have htotal : fs.totalClusters ≤ fs.totalClusters * fs.sectorsPerCluster :=
    Nat.le_mul_of_pos_right _ h.sectorsPerCluster
  omega

end Fs.Fitted

/-! ## Reading -/

theorem Still.sector_eq {s s' : System} (h : Still s s') (lba : Nat) :
    volumeSector s' lba = volumeSector s lba := by
  rw [volumeSector, volumeSector, h.offset, h.sectors]

theorem Still.linkOf_eq {s s' : System} (h : Still s s') : linkOf s' = linkOf s := by
  funext c
  rw [linkOf, linkOf, h.fs, h.sector_eq]

theorem getFs_still : Within Still getFs :=
  Within.bind Within.get fun _ => Within.pure _

theorem readSectors_still (lba count i : Nat) (buf : Buf) :
    Within Still (readSectors lba count i buf) := by
  induction count generalizing i buf with
  | zero => exact Within.pure _
  | succ count ih =>
      refine Within.bind (readSector_still _) fun read => ?_
      cases read with
      | none => exact Within.pure _
      | some sector => exact ih _ _

theorem readCluster_still (cluster : Nat) : Within Still (readCluster cluster) :=
  Within.bind getFs_still fun _ => readSectors_still _ _ _ _

theorem getNextCluster_still (cluster : Nat) :
    Within Still (getNextCluster cluster) := by
  refine Within.bind getFs_still fun fs => ?_
  refine Within.bind (readSector_still _) fun read => ?_
  cases read with
  | none => exact Within.pure _
  | some sector => exact Within.pure _

theorem findEntry_still (name : Name) :
    ∀ cluster, Within Still (findEntry cluster name) := by
  refine findEntry.fixpoint_induct name (fun f => ∀ c, Within Still (f c))
    ?limit ?step
  case limit =>
    intro chain _ hchain c s a s' hrun
    obtain ⟨f, hf, hrun⟩ := exists_run_of_sup _ hrun
    exact hchain f hf c s a s' hrun
  case step =>
    intro f ih c
    beta_reduce
    refine Within.ite ?_ (Within.pure _)
    refine Within.bind (readCluster_still c) fun read => ?_
    cases read with
    | none => exact Within.pure _
    | some buf =>
        refine Within.bind getFs_still fun fs => ?_
        cases findIn name buf fs.entriesPerCluster 0 with
        | found i => exact Within.pure _
        | stop => exact Within.pure _
        | more => exact Within.bind (getNextCluster_still c) fun next => ih next

theorem isDirectoryEmpty_still :
    ∀ cluster, Within Still (isDirectoryEmpty cluster) := by
  refine isDirectoryEmpty.fixpoint_induct (fun f => ∀ c, Within Still (f c))
    ?limit ?step
  case limit =>
    intro chain _ hchain c s a s' hrun
    obtain ⟨f, hf, hrun⟩ := exists_run_of_sup _ hrun
    exact hchain f hf c s a s' hrun
  case step =>
    intro f ih c
    beta_reduce
    refine Within.ite ?_ (Within.pure _)
    refine Within.bind (readCluster_still c) fun read => ?_
    cases read with
    | none => exact Within.pure _
    | some buf =>
        refine Within.bind getFs_still fun fs => ?_
        cases emptyIn buf fs.entriesPerCluster 0 with
        | some result => exact Within.pure _
        | none => exact Within.bind (getNextCluster_still c) fun next => ih next

theorem findSlot_still (skip : Nat → Nat → DirEntry → Bool) (name : Name) :
    ∀ cluster slot, Within Still (findSlot skip name cluster slot) := by
  refine findSlot.fixpoint_induct skip name
    (fun f => ∀ c slot, Within Still (f c slot)) ?limit ?step
  case limit =>
    intro chain _ hchain c slot s a s' hrun
    obtain ⟨f, hf, hrun⟩ := exists_run_of_sup₂ _ hrun
    exact hchain f hf c slot s a s' hrun
  case step =>
    intro f ih c slot
    beta_reduce
    refine Within.ite ?_ (Within.pure _)
    refine Within.bind (readCluster_still c) fun read => ?_
    cases read with
    | none => exact Within.bind (text_still _) fun _ => Within.pure _
    | some buf =>
        refine Within.bind getFs_still fun fs => ?_
        cases scanIn (skip c) name c buf fs.entriesPerCluster 0 slot with
        | found i => exact Within.pure _
        | stop => exact Within.pure _
        | more => exact Within.bind (getNextCluster_still c) fun next => ih next _

/-! ## Writing -/

theorem allocateFrom_returns {count c cluster : Nat} {s s' : System}
    (hrun : allocateFrom count c s = some (cluster, s')) :
    cluster = 0 ∨ c ≤ cluster ∧ cluster < c + count := by
  induction count generalizing c s with
  | zero =>
      cases hrun
      exact .inl rfl
  | succ count ih =>
      have hnext : ∀ u, allocateFrom count (c + 1) u = some (cluster, s') →
          cluster = 0 ∨ c ≤ cluster ∧ cluster < c + (count + 1) := by
        intro u hu
        have hlater := ih hu
        omega
      obtain ⟨link, t, -, hrun⟩ := Program.exists_of_bind hrun
      split at hrun
      · obtain ⟨status, u, -, hrun⟩ := Program.exists_of_bind hrun
        split at hrun
        · obtain ⟨_, v, -, hrun⟩ := Program.exists_of_bind hrun
          cases hrun
          exact .inr ⟨le_rfl, by omega⟩
        · exact hnext u hrun
      · exact hnext t hrun

theorem allocateCluster_returns {fs : Fs} (h : fs.Fitted) {c : Nat}
    (hrun : ∃ s s', s.fat32.fs = fs ∧ allocateCluster s = some (c, s')) :
    c = 0 ∨ fs.InRange c := by
  obtain ⟨s, s', hfs, hrun⟩ := hrun
  rw [allocateCluster, Program.bind_of_some (getFs_apply s), hfs] at hrun
  have hreturns := allocateFrom_returns hrun
  have htotal := h.total_lt
  simp only [Fs.InRange, u32] at hreturns ⊢
  omega

/-- The effect of what a call does to the disk. -/
structure Fs.Allows (fs : Fs) (R : System → System → Prop) : Prop where
  link {c : Nat} (next : Nat) : c < fs.totalClusters + 2 →
    Confined fs R (setNextCluster c next)
  data {c k : Nat} (sector : Sector) : fs.InRange c → k < fs.sectorsPerCluster →
    Confined fs R (writeSector (fs.clusterToLba c + k) sector)
  info (sector : Sector) : Confined fs R (writeSector 1 sector)
  backupInfo (sector : Sector) : Confined fs R (writeSector 7 sector)

section Writing

variable {fs : Fs} {R : System → System → Prop} [Effect R] (hR : fs.Allows R)

include hR

theorem freeCluster_confined {c : Nat} (hc : c < fs.totalClusters + 2) :
    Confined fs R (freeCluster c) := by
  refine Confined.bind (hR.link free hc) fun result =>
    Confined.ite (fun _ => ?_) fun _ => Confined.pure _
  refine Confined.bind (Confined.modifyFat32 ?_ ?_) fun _ => Confined.pure _
  · intro st
    split
    · rfl
    · rfl
  · intro st
    split
    · rfl
    · rfl

theorem writeCluster_confined {c : Nat} (hc : fs.InRange c) (buf : Buf) :
    Confined fs R (writeCluster c buf) := by
  have hsectors : ∀ count i, i + count ≤ fs.sectorsPerCluster →
      Confined fs R (writeSectors (fs.clusterToLba c) buf count i) := by
    intro count
    induction count with
    | zero => exact fun i _ => Confined.pure _
    | succ count ih =>
        intro i hi
        refine Confined.bind
          (hR.data _ hc (by omega)) fun status =>
          Confined.ite (fun _ => Confined.pure _) fun _ => ih _ (by omega)
  exact Confined.getFs (hsectors _ 0 (by omega))

theorem updateFsinfoIfKnown_confined (nextFree : Nat) :
    Confined fs R (updateFsinfoIfKnown nextFree) := by
  refine Confined.bind Confined.getFat32 fun st =>
    Confined.ite (fun _ => ?_) fun _ => Confined.pure _
  refine Confined.bind ?_ fun _ => Confined.pure _
  refine Confined.bind (Confined.readSector _) fun read => ?_
  cases read with
  | none => exact Confined.pure _
  | some sector =>
      refine Confined.ite (fun _ => Confined.pure _) fun _ => ?_
      refine Confined.bind (hR.info _) fun status =>
        Confined.ite (fun _ => Confined.pure _) fun _ => ?_
      exact Confined.bind (hR.backupInfo _)
        fun _ => Confined.pure _

theorem allocateFrom_confined {count c : Nat}
    (hc : c + count ≤ fs.totalClusters + 2) :
    Confined fs R (allocateFrom count c) := by
  induction count generalizing c with
  | zero => exact Confined.pure _
  | succ count ih =>
      refine Confined.bind (Confined.of_still (getNextCluster_still c))
        fun next => Confined.ite (fun _ => ?_) fun _ => ih (by omega)
      refine Confined.bind (hR.link eoc (by omega))
        fun status => Confined.ite (fun _ => ?_) fun _ => ih (by omega)
      refine Confined.bind (Confined.modifyFat32 ?_ ?_) fun _ => Confined.pure _
      · intro st
        split
        · rfl
        · rfl
      · intro st
        split
        · rfl
        · rfl

theorem allocateCluster_confined (h : fs.Fitted) :
    Confined fs R allocateCluster := by
  apply Confined.getFs
  apply allocateFrom_confined hR
  have htotal := h.total_lt
  simp only [u32]
  omega

theorem writeVerified_confined {c : Nat} (hc : fs.InRange c) (block : Buf) :
    Confined fs R (writeVerified c block) := by
  refine Confined.bind (writeCluster_confined hR hc block) fun status =>
    Confined.ite (fun _ => ?_) fun _ => ?_
  · exact Confined.report _ _
  refine Confined.bind (Confined.of_still (readCluster_still c)) fun read => ?_
  cases read with
  | none => exact Confined.report _ _
  | some verify =>
      refine Confined.getFs (Confined.ite (fun _ => ?_) fun _ => Confined.pure _)
      exact Confined.report _ _

theorem writeData_confined (h : fs.Fitted) {data : List UInt8} {first prev : Nat}
    (hprev : prev = 0 ∨ fs.InRange prev) :
    Confined fs R (writeData data first prev) := by
  have hpos : 0 < fs.clusterBytes := by
    have hsize := h.sectorsPerCluster
    simp only [Fs.clusterBytes]
    omega
  induction hn : data.length using Nat.strong_induction_on
    generalizing data first prev with
  | _ n ih =>
      rw [writeData]
      refine Confined.ite (fun hmore => ?_) fun _ => Confined.pure _
      refine Confined.bind_returned (allocateCluster_confined hR h)
        fun c hc => Confined.ite (fun _ => ?_) fun hlow => ?_
      · exact Confined.report _ _
      have hin : fs.InRange c :=
        (allocateCluster_returns h hc).resolve_left (by omega)
      have hrest : Confined fs R (do
          let fs ← getFs
          let chunk := min data.length fs.clusterBytes
          if ! (← writeVerified c (Buf.ofList (data.take chunk))) then
            return none
          writeData (data.drop chunk) (if first = 0 then c else first) c) := by
        apply Confined.getFs
        refine Confined.bind (writeVerified_confined hR hin _) fun ok =>
          Confined.ite (fun _ => Confined.pure _) fun _ => ?_
        refine ih _ ?_ (.inr hin) rfl
        rw [List.length_drop]
        omega
      refine Confined.ite (fun hne => ?_) fun _ => hrest
      refine Confined.bind (hR.link c ?_) fun _ => hrest
      rcases hprev with hzero | hprev
      · exact absurd hzero hne
      · exact hprev.2

/-- The end of the two creating calls: the directory, the hint and the cache. -/
theorem finish_confined {c : Nat} (hc : fs.InRange c) (buf : Buf) (hint : Nat)
    (message warning : String) :
    Confined fs R (do
      if (← writeCluster c buf) ≠ 0 then
        text message
        return (-1 : Int)
      updateFsinfoIfKnown hint
      flushIfSata warning
      return 0) := by
  refine Confined.bind (writeCluster_confined hR hc _) fun status =>
    Confined.ite (fun _ => ?_) fun _ => ?_
  · exact Confined.report _ _
  · refine Confined.bind (updateFsinfoIfKnown_confined hR _) fun _ => ?_
    exact Confined.bind (Confined.flushIfSata _) fun _ => Confined.pure _

theorem storeFile_confined (h : fs.Fitted) {slot : Slot}
    (hslot : fs.InRange slot.cluster) (name : Name) (data : List UInt8) :
    Confined fs R (storeFile name data slot) := by
  refine Confined.bind (writeData_confined hR h (.inl rfl)) fun stored => ?_
  cases stored with
  | none => exact Confined.pure _
  | some stored => exact finish_confined hR hslot _ _ _ _

theorem storeDirectory_confined (h : fs.Fitted) {slot : Slot}
    (hslot : fs.InRange slot.cluster) (name : Name) (parent : Nat) :
    Confined fs R (storeDirectory name parent slot) := by
  refine Confined.bind_returned (allocateCluster_confined hR h) fun c hc =>
    Confined.ite (fun _ => ?_) fun hlow => ?_
  · exact Confined.report _ _
  have hin : fs.InRange c := (allocateCluster_returns h hc).resolve_left (by omega)
  apply Confined.getFs
  refine Confined.bind (writeCluster_confined hR hin _) fun status =>
    Confined.ite (fun _ => ?_) fun _ => ?_
  · refine Confined.bind (Confined.text _) fun _ => ?_
    exact Confined.bind (freeCluster_confined hR hin.2) fun _ => Confined.pure _
  exact finish_confined hR hslot _ _ _ _

theorem removeEntry_confined {c : Nat} (hc : fs.InRange c) (index : Nat) :
    Confined fs R (removeEntry c index) := by
  refine Confined.bind (Confined.of_still (readCluster_still c)) fun read => ?_
  cases read with
  | none => exact Confined.pure _
  | some buf =>
      refine Confined.bind (writeCluster_confined hR hc _) fun status =>
        Confined.ite (fun _ => Confined.pure _) fun _ => ?_
      exact Confined.bind (updateFsinfoIfKnown_confined hR _) fun _ =>
        Confined.pure _

end Writing

/-! ## Following a chain -/

theorem writeSector_cases {lba : Nat} (sector : Sector) (hlba : lba < 4294967296)
    {s s' : System} {status : Int}
    (hrun : writeSector lba sector s = some (status, s')) :
    s'.fat32 = s.fat32 ∧ ∀ other < 4294967296,
      volumeSector s' other = volumeSector s other ∨
        other = lba ∧ volumeSector s' other = sector := by
  obtain ⟨st, middle, hget, hwrite⟩ := Program.exists_of_bind hrun
  cases hget
  by_cases hs : (s.device.sataPresent || s.device.msPresent) = true
  · rw [blockWriteSector_present _ hs] at hwrite
    split at hwrite
    · cases hwrite
      exact ⟨rfl, fun _ _ => .inl rfl⟩
    · cases hwrite
      refine ⟨rfl, fun other hother => ?_⟩
      have hput := volumeSector_put s.tick sector hlba hother
      by_cases hsame : other = lba
      · exact .inr ⟨hsame, hput.trans (if_pos hsame)⟩
      · exact .inl (hput.trans (if_neg hsame))
  · unfold blockWriteSector at hwrite
    rw [Program.get_bind, if_neg hs] at hwrite
    cases hwrite
    exact ⟨rfl, fun _ _ => .inl rfl⟩

/-- Links of clusters are those they were, or have become end marks. -/
def Loosened (fs : Fs) (s s' : System) : Prop :=
  s'.fat32.fs = fs ∧ ∀ d, fs.InRange d → Live d →
    linkOf s' d = linkOf s d ∨ ¬ Live (linkOf s' d)

theorem Still.loosened {fs : Fs} {s s' : System} (h : Still s s')
    (hfs : s.fat32.fs = fs) : Loosened fs s s' :=
  ⟨by rw [h.fs, hfs], fun d _ _ => .inl (by rw [h.linkOf_eq])⟩

theorem Loosened.trans {fs : Fs} {s s' s'' : System} (h : Loosened fs s s')
    (h' : Loosened fs s' s'') : Loosened fs s s'' := by
  refine ⟨h'.1, fun d hd hlive => ?_⟩
  rcases h'.2 d hd hlive with hsame | hstop
  · rw [hsame]
    exact h.2 d hd hlive
  · exact .inr hstop

/-- From this cluster on, the links lead to clusters of the volume only. -/
def Stays (s : System) (cluster : Nat) : Prop :=
  ∀ k, (∀ j ≤ k, Live ((linkOf s)^[j] cluster)) →
    s.fat32.fs.InRange ((linkOf s)^[k] cluster)

theorem Stays.of_not_live {s : System} {c : Nat} (h : ¬ Live c) : Stays s c :=
  fun k hk => absurd (hk 0 (Nat.zero_le k)) h

theorem Stays.inRange {s : System} {c : Nat} (h : Stays s c) (hlive : Live c) :
    s.fat32.fs.InRange c := by
  apply h 0
  intro j hj
  rw [Nat.le_zero.mp hj]
  exact hlive

theorem Stays.next {s : System} {c : Nat} (h : Stays s c) (hlive : Live c) :
    Stays s (linkOf s c) := by
  intro k hk
  rw [← Function.iterate_succ_apply]
  apply h
  intro j hj
  cases j with
  | zero => exact hlive
  | succ j =>
      rw [Function.iterate_succ_apply]
      exact hk j (by omega)

/-- What is found is the link, or an end mark after a failed read. -/
theorem getNextCluster_returns {c next : Nat} {s s' : System}
    (hrun : getNextCluster c s = some (next, s')) :
    next = linkOf s c ∨ ¬ Live next := by
  rw [getNextCluster, Program.bind_of_some (getFs_apply s)] at hrun
  obtain ⟨read, t, hread, hrun⟩ := Program.exists_of_bind hrun
  cases read with
  | none =>
      cases hrun
      exact .inr eoc_not_live
  | some sector =>
      obtain ⟨-, -, rfl, -⟩ := readSector_some hread
      cases hrun
      exact .inl rfl

section Chains

variable {fs : Fs} (h : fs.Fitted)

include h

theorem setNextCluster_loosened {c : Nat} (hc : c < fs.totalClusters + 2)
    {s s' : System} {status : Int} (hfs : s.fat32.fs = fs)
    (hrun : setNextCluster c free s = some (status, s')) : Loosened fs s s' := by
  have hend := h.clustersEnd
  have hbegin := h.clusterBegin
  have hcopies := h.copies_le
  obtain ⟨hsector, hin⟩ := h.fatSector_eq hc
  rw [setNextCluster, Program.bind_of_some (getFs_apply s), hfs] at hrun
  obtain ⟨read, t, hread, hrun⟩ := Program.exists_of_bind hrun
  have hstill := readSector_still _ _ _ _ hread
  cases read with
  | none =>
      cases hrun
      exact hstill.loosened hfs
  | some sector =>
      obtain ⟨-, -, hsame, -⟩ := readSector_some hread
      subst hsame
      -- only the sectors of the link and of its backup may be different
      have hlinked : ∀ u : System, u.fat32.fs = fs →
          (∀ lba < fs.fatBeginLba + fs.fatSize,
            volumeSector u lba = volumeSector s lba ∨
              lba = fs.fatSector c ∧ volumeSector u lba =
                linkedSector (volumeSector s (fs.fatSector c)) c free) →
          Loosened fs s u := by
        intro u hu hsectors
        refine ⟨hu, fun d hd hlive => ?_⟩
        obtain ⟨hd', hind⟩ := h.fatSector_eq hd.2
        rw [linkOf, linkOf, hu, hfs, entryOffset_eq]
        rcases hsectors (fs.fatSector d) (by omega) with heq | ⟨hplace, heq⟩
        · exact .inl (by rw [heq])
        · rw [heq, linkedSector_link _ _ (by omega), hplace]
          split
          · exact .inr (by decide)
          · exact .inl rfl
      obtain ⟨first, u, hfirst, hrun⟩ := Program.exists_of_bind hrun
      obtain ⟨hu, hu'⟩ := writeSector_cases _ (by omega) hfirst
      have hufs : u.fat32.fs = fs := by rw [hu, hstill.fs, hfs]
      have husectors : ∀ lba < 4294967296,
          volumeSector u lba = volumeSector s lba ∨
            lba = fs.fatSector c ∧ volumeSector u lba =
              linkedSector (volumeSector s (fs.fatSector c)) c free := by
        intro lba hlba
        rw [← hstill.sector_eq lba]
        exact hu' lba hlba
      have hone : Loosened fs s u :=
        hlinked u hufs fun lba hlba => husectors lba (by omega)
      split at hrun
      · cases hrun
        exact hone
      split at hrun
      · next hmany =>
          obtain ⟨second, v, hsecond, hrun⟩ := Program.exists_of_bind hrun
          obtain ⟨hv, hv'⟩ := writeSector_cases _ (u32_lt _) hsecond
          have htwo : Loosened fs s v := by
            refine hlinked v (by rw [hv, hufs]) fun lba hlba => ?_
            have hdouble : 2 * fs.fatSize ≤ fs.numFats * fs.fatSize :=
              Nat.mul_le_mul_right _ hmany
            rcases hv' lba (by omega) with heq | ⟨hplace, -⟩
            · rw [heq]
              exact husectors lba (by omega)
            · rw [u32_of_lt (by omega)] at hplace
              omega
          split at hrun
          · cases hrun
            exact htwo
          · cases hrun
            exact htwo
      · cases hrun
        exact hone

theorem freeCluster_loosened {c : Nat} (hc : c < fs.totalClusters + 2)
    {s s' : System} {status : Int} (hfs : s.fat32.fs = fs)
    (hrun : freeCluster c s = some (status, s')) : Loosened fs s s' := by
  obtain ⟨result, t, hset, hrun⟩ := Program.exists_of_bind hrun
  have ht := setNextCluster_loosened h hc hfs hset
  split at hrun
  · cases hrun
    refine ht.trans ⟨?_, fun d _ _ => .inl ?_⟩
    · rw [← ht.1]
      dsimp only
      split
      · rfl
      · rfl
    · apply linkOf_statics
      · beta_reduce
        split
        · rfl
        · rfl
      · beta_reduce
        split
        · rfl
        · rfl
  · cases hrun
    exact ht

theorem freeChain_confined {R : System → System → Prop} [Effect R]
    (hR : fs.Allows R) {s : System} (hs : s.fat32.fs = fs) :
    ∀ c t t', Stays s c → Loosened fs s t → freeChain c t = some ((), t') → R t t' := by
  refine freeChain.fixpoint_induct (fun f => ∀ c t t', Stays s c →
    Loosened fs s t → f c t = some ((), t') → R t t') ?limit ?step
  case limit =>
    intro chain _ hchain c t t' hstays ht hrun
    obtain ⟨f, hf, hrun⟩ := exists_run_of_sup _ hrun
    exact hchain f hf c t t' hstays ht hrun
  case step =>
    intro f ih c t t' hstays ht hrun
    beta_reduce at hrun
    split at hrun
    · next hlive =>
        have hin := hstays.inRange hlive
        rw [hs] at hin
        obtain ⟨next, u, hget, hrun⟩ := Program.exists_of_bind hrun
        obtain ⟨status, v, hfree, hrun⟩ := Program.exists_of_bind hrun
        have hu := getNextCluster_still c _ _ _ hget
        have hufs : u.fat32.fs = fs := by rw [hu.fs, ht.1]
        have hv := ht.trans ((hu.loosened ht.1).trans
          (freeCluster_loosened h hin.2 hufs hfree))
        have hnext : Stays s next := by
          rcases getNextCluster_returns hget with rfl | hstop
          · rcases ht.2 c hin hlive with hsame | hstop
            · rw [hsame]
              exact hstays.next hlive
            · exact Stays.of_not_live hstop
          · exact Stays.of_not_live hstop
        exact IsTrans.trans _ _ _ (Effect.still hu)
          (IsTrans.trans _ _ _ (freeCluster_confined hR hin.2 _ _ _ hufs hfree)
            (ih _ _ _ hnext hv hrun))
    · cases hrun
      exact Std.Refl.refl _

end Chains

/-! ## The calls -/

/--
The clusters that a call frees or rewrites because of what the disk holds: the
cluster where it finds or puts the entry, and the chain that it frees.
-/
def Call.StaysInside (s : System) : Call → Prop
  | writeFileIn parent filename _ => ∀ found t,
      findSlot skipNone (nameToFat filename) parent none s = some (found, t) →
      (∀ slot, found = .existing slot → s.fat32.fs.InRange slot.cluster ∧
        Stays s (entryAt slot.buffer slot.index).firstCluster) ∧
      ∀ slot, found = .free (some slot) → s.fat32.fs.InRange slot.cluster
  | createDirectoryIn parent dirname => ∀ slot t,
      findSlot (skipDots s.fat32.fs.rootDirCluster) (nameToFat dirname) parent
        none s = some (.free (some slot), t) → s.fat32.fs.InRange slot.cluster
  | deleteDirectoryIn parent dirname => ∀ found t result u,
      findEntry parent (nameToFat dirname) s = some (some found, t) →
      found.entry.HasAttr attrDirectory →
      isDirectoryEmpty found.entry.firstCluster t = some (result, u) →
      result ≠ 0 → s.fat32.fs.InRange found.cluster ∧
        found.entry.firstCluster < s.fat32.fs.totalClusters + 2
  | deleteFile filename => ∀ found t,
      findEntry s.fat32.fs.rootDirCluster (nameToFat filename) s =
        some (some found, t) → s.fat32.fs.InRange found.cluster ∧
        Stays s found.entry.firstCluster

section Calls

variable {R : System → System → Prop} [Effect R] {s s' : System}
  (h : s.fat32.fs.Fitted) (hR : s.fat32.fs.Allows R) {status : Int}

include h hR

theorem writeFileIn_confined {parent : Nat} {filename data : List UInt8}
    (hstays : (Call.writeFileIn parent filename data).StaysInside s)
    (hrun : writeFileIn parent filename data s = some (status, s')) : R s s' := by
  rw [writeFileIn, Program.bind_of_some (getFs_apply s)] at hrun
  split at hrun
  · obtain ⟨found, t, hfind, hrun⟩ := Program.exists_of_bind hrun
    obtain ⟨hexisting, hfree⟩ := hstays found t hfind
    have hstill := findSlot_still _ _ _ _ _ _ _ hfind
    have hfs := hstill.fs
    refine IsTrans.trans _ _ _ (Effect.still hstill) ?_
    cases found with
    | unreadable =>
        cases hrun
        exact Std.Refl.refl _
    | existing slot =>
        obtain ⟨hslot, hchain⟩ := hexisting slot rfl
        obtain ⟨_, u, hfreed, hrun⟩ := Program.exists_of_bind hrun
        have hu := freeChain_confined h hR rfl _ _ _ hchain
          (hstill.loosened rfl) hfreed
        exact IsTrans.trans _ _ _ hu (storeFile_confined hR h hslot _ _ _ _ _
          ((Effect.fs hu).trans hfs) hrun)
    | free slot =>
        cases slot with
        | none => exact Confined.report _ _ _ _ _ hfs hrun
        | some slot =>
            exact storeFile_confined hR h (hfree slot rfl) _ _ _ _ _ hfs hrun
  · exact Confined.report _ _ _ _ _ rfl hrun

theorem createDirectoryIn_confined {parent : Nat} {dirname : List UInt8}
    (hstays : (Call.createDirectoryIn parent dirname).StaysInside s)
    (hrun : createDirectoryIn parent dirname s = some (status, s')) : R s s' := by
  rw [createDirectoryIn, Program.bind_of_some (getFs_apply s)] at hrun
  split at hrun
  · obtain ⟨found, t, hfind, hrun⟩ := Program.exists_of_bind hrun
    have hstill := findSlot_still _ _ _ _ _ _ _ hfind
    have hfs := hstill.fs
    refine IsTrans.trans _ _ _ (Effect.still hstill) ?_
    cases found with
    | unreadable =>
        cases hrun
        exact Std.Refl.refl _
    | existing slot => exact Confined.report _ _ _ _ _ hfs hrun
    | free slot =>
        cases slot with
        | none => exact Confined.report _ _ _ _ _ hfs hrun
        | some slot =>
            exact storeDirectory_confined hR h (hstays slot t hfind) _ _ _ _ _
              hfs hrun
  · exact Confined.report _ _ _ _ _ rfl hrun

omit h in
theorem deleteDirectoryIn_confined {parent : Nat} {dirname : List UInt8}
    (hstays : (Call.deleteDirectoryIn parent dirname).StaysInside s)
    (hrun : deleteDirectoryIn parent dirname s = some (status, s')) : R s s' := by
  rw [deleteDirectoryIn, Program.bind_of_some (getFs_apply s)] at hrun
  split at hrun
  · obtain ⟨found, t, hfind, hrun⟩ := Program.exists_of_bind hrun
    have hstill := findEntry_still _ _ _ _ _ hfind
    have hfs := hstill.fs
    refine IsTrans.trans _ _ _ (Effect.still hstill) ?_
    cases found with
    | none => exact Confined.report _ _ _ _ _ hfs hrun
    | some found =>
        dsimp only at hrun
        split at hrun
        · exact Confined.report _ _ _ _ _ hfs hrun
        · next hdirectory =>
            obtain ⟨result, u, hempty, hrun⟩ := Program.exists_of_bind hrun
            have hu := isDirectoryEmpty_still _ _ _ _ hempty
            have hufs := hu.fs.trans hfs
            refine IsTrans.trans _ _ _ (Effect.still hu) ?_
            split at hrun
            · exact Confined.report _ _ _ _ _ hufs hrun
            · next hfull =>
                obtain ⟨hcluster, hfirst⟩ :=
                  hstays found t result u hfind (not_not.mp hdirectory) hempty hfull
                exact Confined.bind (freeCluster_confined hR hfirst)
                  (fun _ => removeEntry_confined hR hcluster _) _ _ _ hufs hrun
  · cases hrun
    exact Std.Refl.refl _

theorem deleteFile_confined {filename : List UInt8}
    (hstays : (Call.deleteFile filename).StaysInside s)
    (hrun : deleteFile filename s = some (status, s')) : R s s' := by
  rw [deleteFile, Program.bind_of_some (getFs_apply s)] at hrun
  split at hrun
  · obtain ⟨found, t, hfind, hrun⟩ := Program.exists_of_bind hrun
    have hstill := findEntry_still _ _ _ _ _ hfind
    have hfs := hstill.fs
    refine IsTrans.trans _ _ _ (Effect.still hstill) ?_
    cases found with
    | none =>
        cases hrun
        exact Std.Refl.refl _
    | some found =>
        obtain ⟨hcluster, hchain⟩ := hstays found t hfind
        obtain ⟨_, u, hfreed, hrun⟩ := Program.exists_of_bind hrun
        have hu := freeChain_confined h hR rfl _ _ _ hchain
          (hstill.loosened rfl) hfreed
        exact IsTrans.trans _ _ _ hu (removeEntry_confined hR hcluster _ _ _ _
          ((Effect.fs hu).trans hfs) hrun)
  · cases hrun
    exact Std.Refl.refl _

/-- A call that stays inside has the effects that its parts have. -/
theorem Call.run_confined {c : Call} (hstays : c.StaysInside s)
    (hrun : c.run s = some (status, s')) : R s s' := by
  cases c with
  | writeFileIn parent filename data => exact writeFileIn_confined h hR hstays hrun
  | createDirectoryIn parent dirname =>
      exact createDirectoryIn_confined h hR hstays hrun
  | deleteDirectoryIn parent dirname => exact deleteDirectoryIn_confined hR hstays hrun
  | deleteFile filename => exact deleteFile_confined h hR hstays hrun

end Calls

/-! ## Sound volumes -/

/-- An entry under a name that a caller can give is a node of the tree. -/
theorem Volume.Directory.reach {v : Volume} {cluster : Nat} {l : List Nat}
    (hdir : v.Directory cluster l) {p : Place} (hp : p ∈ places l)
    (huse : (v.entry p).InUse) {filename : List UInt8}
    (hname : (v.entry p).name = nameToFat filename) : v.Reach (.entry p) := by
  obtain ⟨n, hn, hisDir, rfl⟩ := hdir.live
  exact .child hn ⟨hisDir, ⟨l, hdir.chain, hp⟩, huse, not_isDot_of_name hname⟩

section Sound

variable {s : System} {v : Volume} (hs : Represents s v)

include hs

theorem Represents.fs_eq : s.fat32.fs = v.fs := by
  obtain ⟨-, -, rfl⟩ := represents_iff.mp hs
  rfl

theorem Represents.linkOf_eq {c : Nat} (hc : c < v.fs.totalClusters + 2) :
    linkOf s c = v.link c := by
  obtain ⟨hfault, -, -⟩ := represents_iff.mp hs
  exact ((getNextCluster_executes v hc).deterministic hs
    (getNextCluster_faultFree hfault c)).1

theorem Represents.stays {first : Nat} {old : List Nat} (hold : v.Chain first old) :
    Stays s first := by
  obtain ⟨last, hwalk, -⟩ := hold.ends
  have hrange := hold.inRange
  clear hold
  induction hwalk with
  | stop hstop => exact Stays.of_not_live hstop
  | @step c last l hlive _ ih =>
      have hc := hrange c (by simp)
      have hrest := ih fun d hd => hrange d (List.mem_cons_of_mem _ hd)
      rw [← hs.linkOf_eq hc.2] at hrest
      intro k hk
      cases k with
      | zero =>
          rw [hs.fs_eq]
          exact hc
      | succ k =>
          rw [Function.iterate_succ_apply]
          refine hrest k fun j hj => ?_
          rw [← Function.iterate_succ_apply]
          exact hk (j + 1) (by omega)

variable {cluster : Nat} {l : List Nat} (hdir : v.Directory cluster l)

include hdir

/-- What the scan of the creating calls can come back with. -/
theorem Represents.findSlot_cases {skip : Nat → Nat → DirEntry → Bool} {name : Name}
    {found : SlotSearch} {t : System}
    (hfind : findSlot skip name cluster none s = some (found, t)) :
    (∃ p ∈ places l, (v.entry p).InUse ∧ (v.entry p).name = name ∧
      found = .existing (v.slotAt p)) ∨
    (∃ p ∈ places l, found = .free (some (v.slotAt p))) ∨ found = .free none := by
  obtain ⟨last, hwalk, -⟩ := hdir.chain.ends
  have hscan := findSlot_executes hs.layout skip hwalk hdir.chain.inRange name none
  obtain ⟨rfl, -⟩ := hscan.deterministic hs hfind
  cases hchoice : v.choose skip name (places l) none with
  | existing p =>
      obtain ⟨hp, huse, hname⟩ := Volume.choose_existing hchoice
      exact .inl ⟨p, hp, huse, hname, rfl⟩
  | free p =>
      cases p with
      | none => exact .inr (.inr rfl)
      | some p =>
          have hp := (Volume.choose_free_mem hchoice).resolve_right (by simp)
          exact .inr (.inl ⟨p, hp, rfl⟩)

theorem Represents.findEntry_some (hv : v.WellFormed) {name : Name} {found : Located}
    {t : System} (hfind : findEntry cluster name s = some (some found, t)) :
    ∃ p ∈ places l, v.Named name p ∧ found = v.locate p := by
  obtain ⟨last, hwalk, -⟩ := hdir.chain.ends
  have hscan := findEntry_executes hs.layout hwalk hdir.chain.inRange name
  have hfound := (hscan.deterministic hs hfind).1
  obtain ⟨p, hlookup, rfl⟩ := Option.map_eq_some_iff.mp hfound.symm
  obtain ⟨hp, hnamed⟩ := (Volume.lookup_eq_some_iff (hdir.orderly hv)).mp hlookup
  exact ⟨p, hp, hnamed, rfl⟩

omit hdir

/-- On a sound volume every call stays inside. -/
theorem Call.Proper.staysInside (hv : v.Regular) {c : Call} (hproper : c.Proper v) :
    c.StaysInside s := by
  have hwf := hv.wellFormed
  cases c with
  | writeFileIn parent filename data =>
      obtain ⟨-, -, l, hdir⟩ := hproper
      intro found t hfind
      rw [hs.fs_eq]
      rcases hs.findSlot_cases hdir hfind with
        ⟨p, hp, huse, hname, rfl⟩ | ⟨p, hp, rfl⟩ | rfl
      · obtain ⟨old, hold⟩ := hwf.chain _ (hdir.reach hp huse hname)
        refine ⟨fun slot hslot => ?_, fun slot hslot => nomatch hslot⟩
        cases hslot
        exact ⟨hdir.chain.inRange p.1 (mem_places.mp hp).1, hs.stays hold⟩
      · refine ⟨fun slot hslot => (nomatch hslot), fun slot hslot => ?_⟩
        cases hslot
        exact hdir.chain.inRange p.1 (mem_places.mp hp).1
      · exact ⟨fun slot hslot => (nomatch hslot), fun slot hslot => nomatch hslot⟩
  | createDirectoryIn parent dirname =>
      obtain ⟨-, l, hdir⟩ := hproper
      intro slot t hfind
      rw [hs.fs_eq]
      rcases hs.findSlot_cases hdir hfind with
        ⟨p, -, -, -, hslot⟩ | ⟨p, hp, hslot⟩ | hslot
      · cases hslot
      · cases hslot
        exact hdir.chain.inRange p.1 (mem_places.mp hp).1
      · cases hslot
  | deleteDirectoryIn parent dirname =>
      obtain ⟨-, l, hdir⟩ := hproper
      intro found t result u hfind hisDir _ _
      rw [hs.fs_eq]
      obtain ⟨p, hp, hnamed, rfl⟩ := hs.findEntry_some hdir hwf hfind
      have hreach := hdir.reach hp hnamed.1 hnamed.2.2
      obtain ⟨old, hold⟩ := hwf.chain _ hreach
      have hlength := hv.single _ old hreach hisDir hold
      have hne : old ≠ [] := by
        rintro rfl
        exact absurd hlength (by simp)
      exact ⟨hdir.chain.inRange p.1 (mem_places.mp hp).1,
        (hold.inRange _ (hold.head_mem hne)).2⟩
  | deleteFile filename =>
      obtain ⟨l, hl⟩ := hwf.chain .root .root
      have hdir : v.Directory v.fs.rootDirCluster l := ⟨⟨.root, .root, trivial, rfl⟩, hl⟩
      intro found t hfind
      rw [hs.fs_eq] at hfind ⊢
      obtain ⟨p, hp, hnamed, rfl⟩ := hs.findEntry_some hdir hwf hfind
      obtain ⟨old, hold⟩ := hwf.chain _ (hdir.reach hp hnamed.1 hnamed.2.2)
      exact ⟨hdir.chain.inRange p.1 (mem_places.mp hp).1, hs.stays hold⟩

end Sound

/-! ## Sessions -/

theorem formattedFs_fitted {total : Nat} (h : Formattable total) :
    (formattedFs total).Fitted := by
  have hclusters := h.clusters_le
  have hlt := h.lt
  constructor
  case sectorsPerCluster => exact (by decide : 1 ≤ 8)
  case numFats => exact (by decide : 1 ≤ 2)
  case fatLarge => exact h.fat
  case clusterBegin => rfl
  case clustersEnd =>
    change 32 + 2 * formatFatSize total + formatClusters total * 8 < 4294967296
    omega

section Sessions

variable {total : UInt64} {label : Option (List UInt8)} {ok : Volume → Call → Prop}
  {s s' : System} (h : Formattable total.toNat) (hroom : ∀ v c, ok v c → c.HasRoom v)
  (hs : Session total label ok s)

include h hroom hs

theorem Session.fs_eq : s.fat32.fs = formattedFs total.toNat := by
  refine (Session.invariant (P := fun v => v.fs = formattedFs total.toNat) h hroom
    (fun v hfresh => hfresh.fs) ?_ hs).2.2
  intro v c v' hv hfs _ houtcome
  obtain ⟨n, l, p, old, new, hchange⟩ := houtcome.change hv.wellFormed
  exact hchange.fs.trans hfs

theorem Session.run_confined {R : System → System → Prop} [Effect R]
    (hR : (formattedFs total.toNat).Allows R) {c : Call}
    (hproper : c.Proper (volumeOf s)) {status : Int}
    (hrun : c.run s = some (status, s')) : R s s' := by
  have hfs := hs.fs_eq h hroom
  obtain ⟨hrep, hregular⟩ := hs.represents h hroom
  apply Call.run_confined _ _ (hproper.staysInside hrep hregular) hrun
  · rw [hfs]
    exact formattedFs_fitted h
  · rw [hfs]
    exact hR

end Sessions

/-- A first directory on a hundred sectors, and the cluster it takes. -/
theorem exists_session_with_directory :
    ∃ s s', Session 100 none (fun v c => c.HasRoom v) s ∧
      (Call.createDirectoryIn 2 roundDirectory).Proper (volumeOf s) ∧
      (Call.createDirectoryIn 2 roundDirectory).run s = some (0, s') ∧
      Session 100 none (fun v c => c.HasRoom v) s' ∧
      (volumeOf s').fs.InRange 3 ∧ (volumeOf s').link 3 ≠ free := by
  have h : Formattable (100 : UInt64).toNat := by decide
  obtain ⟨v, ⟨s, hs, hrep⟩, hlayout, hfresh⟩ :=
    exists_reaches_fresh h none fun v c => c.HasRoom v
  obtain ⟨-, -, rfl⟩ := represents_iff.mp hrep
  have hleaked : (volumeOf s).Leaked 8 0 := hfresh.leaked hlayout (by decide)
  obtain ⟨w, p, hcreate, hw, -⟩ := hleaked.create
  obtain ⟨s', hrun, hrep'⟩ := hcreate s hrep
  obtain ⟨-, -, rfl⟩ := represents_iff.mp hrep'
  have hproper : (Call.createDirectoryIn 2 roundDirectory).Proper (volumeOf s) :=
    ⟨roundDirectory_ascii, _, hleaked.directory⟩
  have hroom : (Call.createDirectoryIn 2 roundDirectory).HasRoom (volumeOf s) := by
    have hrelease : (volumeOf s).release [] = volumeOf s := rfl
    rw [Call.HasRoom, Volume.room_eq, hrelease, hleaked.free]
    decide
  have hthree : (volumeOf s').fs.InRange 3 := by
    rw [Fs.InRange, hw.totalClusters]
    decide
  refine ⟨s, s', hs, hproper, hrun, .call hs hproper hroom hrun, hthree, fun hfree => ?_⟩
  have hmem := Volume.mem_freeList.mpr ⟨hthree, hfree⟩
  rw [hw.free] at hmem
  exact absurd hmem (by decide)

end EntropyOS.Fat32
