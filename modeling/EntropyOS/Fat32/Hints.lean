import EntropyOS.Fat32.Ending
import EntropyOS.Fat32.Leak
import EntropyOS.Fat32.Placing

/-!
# The next-free hint

The hint that a creating call leaves in the FSInfo sector is the number after
the last cluster it took.  That is a cluster of the volume as long as the call
takes one and does not have to take the last.
-/

namespace EntropyOS.Fat32

open EntropyOS.Foundation

/-- A cluster with an entry in the FAT, and not the last of the volume. -/
structure Fs.Ordinary (fs : Fs) (c : Nat) : Prop where
  low : 2 ≤ c
  notLast : c ≤ fs.totalClusters
  inFat : c < 128 * fs.fatSize

/-! ## Clusters that stay free -/

/-- The clusters `l` are free, and the FSInfo sector is `info`. -/
structure Spare (fs : Fs) (l : List Nat) (info : Sector) (s : System) : Prop where
  faultFree : s.device.FaultFree
  fs_eq : s.fat32.fs = fs
  info_eq : volumeSector s 1 = info
  ordinary : ∀ c ∈ l, fs.Ordinary c
  free_eq : ∀ c ∈ l, linkOf s c = free

section Spare

variable {fs : Fs} {l : List Nat} {info : Sector} {s s' : System}

theorem Spare.mono {l' : List Nat} (hs : Spare fs l info s) (hsub : ∀ c ∈ l', c ∈ l) :
    Spare fs l' info s where
  faultFree := hs.faultFree
  fs_eq := hs.fs_eq
  info_eq := hs.info_eq
  ordinary c hc := hs.ordinary c (hsub c hc)
  free_eq c hc := hs.free_eq c (hsub c hc)

theorem volumeSector_statics {st : Statics}
    (hoffset : st.partitionOffset = s.fat32.partitionOffset) (lba : Nat) :
    volumeSector { s with fat32 := st } lba = volumeSector s lba := by
  simp only [volumeSector, hoffset]

theorem linkOf_statics {st : Statics} (hfs : st.fs = s.fat32.fs)
    (hoffset : st.partitionOffset = s.fat32.partitionOffset) (c : Nat) :
    linkOf { s with fat32 := st } c = linkOf s c := by
  simp only [linkOf, hfs, volumeSector_statics hoffset]

theorem Spare.of_statics (hs : Spare fs l info s) {st : Statics}
    (hfs : st.fs = s.fat32.fs) (hoffset : st.partitionOffset = s.fat32.partitionOffset) :
    Spare fs l info { s with fat32 := st } where
  faultFree := hs.faultFree
  fs_eq := hfs.trans hs.fs_eq
  info_eq := (volumeSector_statics hoffset 1).trans hs.info_eq
  ordinary := hs.ordinary
  free_eq c hc := (linkOf_statics hfs hoffset c).trans (hs.free_eq c hc)

variable (h : fs.Placed)

include h

theorem Spare.of_kept (hs : Spare fs l info s)
    (hkept : Kept fs (· < fs.clusterBeginLba) s s') : Spare fs l info s' := by
  have hbegin := h.clusterBeginLba
  obtain ⟨hs', hfs', hsame⟩ := hkept hs.faultFree hs.fs_eq
  constructor
  case faultFree => exact hs'
  case fs_eq => exact hfs'
  case info_eq =>
    rw [hsame 1 (by omega) (by omega)]
    exact hs.info_eq
  case ordinary => exact hs.ordinary
  case free_eq =>
    intro c hc
    have hin := (hs.ordinary c hc).inFat
    rw [linkOf_of_kept h hkept hs.faultFree hs.fs_eq hin (by omega)]
    exact hs.free_eq c hc

/-- A link may be set, but no free cluster of `l` may be linked to another. -/
theorem setNextCluster_spare (hs : Spare fs l info s) (cluster next : Nat)
    (hkeep : cluster % 1073741824 ∈ l → next % 268435456 = free) :
    ∃ s', setNextCluster cluster next s = some (0, s') ∧ Spare fs l info s' := by
  obtain ⟨s', hrun, -, hlinks⟩ :=
    setNextCluster_links h hs.faultFree hs.fs_eq cluster next
  obtain ⟨hs', hfs', hsame⟩ :=
    setNextCluster_kept h cluster next _ _ _ hrun hs.faultFree hs.fs_eq
  refine ⟨s', hrun, ?_⟩
  constructor
  case faultFree => exact hs'
  case fs_eq => exact hfs'
  case info_eq =>
    rw [hsame 1 (by omega) rfl]
    exact hs.info_eq
  case ordinary => exact hs.ordinary
  case free_eq =>
    intro c hc
    rw [hlinks c (hs.ordinary c hc).inFat]
    split
    · next hsame => exact hkeep (by rwa [← hsame])
    · exact hs.free_eq c hc

theorem freeCluster_spare (cluster : Nat) :
    Within (fun s s' => Spare fs l info s → Spare fs l info s')
      (freeCluster cluster) := by
  intro s result s' hrun hs
  obtain ⟨s₁, hset, hs₁⟩ := setNextCluster_spare h hs cluster free
    fun _ => rfl
  rw [freeCluster, Program.bind_of_some hset, if_pos rfl] at hrun
  cases hrun
  apply hs₁.of_statics
  · beta_reduce
    split <;> rfl
  · beta_reduce
    split <;> rfl

theorem freeChain_spare (cluster : Nat) :
    Within (fun s s' => Spare fs l info s → Spare fs l info s')
      (freeChain cluster) := by
  have : Std.Refl fun s s' => Spare fs l info s → Spare fs l info s' :=
    ⟨fun _ hs => hs⟩
  have : IsTrans System fun s s' => Spare fs l info s → Spare fs l info s' :=
    ⟨fun _ _ _ h h' hs => h' (h hs)⟩
  refine freeChain_within (fun c => ?_) (fun c _ => freeCluster_spare h c) cluster
  intro s a s' hrun hs
  rw [getNextCluster_faultFree hs.faultFree] at hrun
  cases hrun
  exact hs

/-- The loop takes the first free cluster, so none behind the free cluster `d`. -/
private theorem allocateFrom_spare {d : Nat} (count cluster : Nat) (hs : Spare fs l info s)
    (hnodup : l.Nodup) (hd : d ∈ l) (hlow : cluster ≤ d) (hhigh : d < cluster + count) :
    ∃ c s', allocateFrom count cluster s = some (c, s') ∧ cluster ≤ c ∧ c ≤ d ∧
      Spare fs (l.erase c) info s' := by
  have hord := hs.ordinary d hd
  have hsize := h.fatSize
  have hin := hord.inFat
  induction count generalizing cluster with
  | zero => omega
  | succ count ih =>
      rw [allocateFrom, Program.bind_of_some (getNextCluster_faultFree hs.faultFree _)]
      by_cases hfree : linkOf s cluster = free
      · obtain ⟨s₁, hset, hs₁⟩ := setNextCluster_spare h (l := l.erase cluster)
          (hs.mono fun c hc => List.mem_of_mem_erase hc) cluster eoc (by
            rw [Nat.mod_eq_of_lt (by omega)]
            intro hmem
            exact absurd hmem hnodup.not_mem_erase)
        rw [if_pos hfree, Program.bind_of_some hset, if_pos rfl]
        refine ⟨cluster, _, rfl, le_rfl, hlow, ?_⟩
        apply hs₁.of_statics
        · beta_reduce
          split <;> rfl
        · beta_reduce
          split <;> rfl
      · have hne : cluster ≠ d := by
          rintro rfl
          exact hfree (hs.free_eq _ hd)
        rw [if_neg hfree]
        obtain ⟨c, s', hrun, hfirst, hlast, hs'⟩ :=
          ih (cluster + 1) (by omega) (by omega)
        exact ⟨c, s', hrun, by omega, hlast, hs'⟩

theorem allocateCluster_spare {d : Nat} (hs : Spare fs l info s) (hnodup : l.Nodup)
    (hd : d ∈ l) :
    ∃ c s', allocateCluster s = some (c, s') ∧ fs.Ordinary c ∧
      Spare fs (l.erase c) info s' := by
  have hord := hs.ordinary d hd
  obtain ⟨hlow, hnotLast, hin⟩ := hord
  have htotal := h.totalClusters
  have hget : getFs s = some (fs, s) := by
    rw [← hs.fs_eq]
    rfl
  rw [allocateCluster, Program.bind_of_some hget, u32_of_lt (by omega)]
  obtain ⟨c, s', hrun, hfirst, hlast, hs'⟩ :=
    allocateFrom_spare h (fs.totalClusters + 2 - 2) 2 hs hnodup hd hlow
      (by omega)
  exact ⟨c, s', hrun, ⟨hfirst, by omega, by omega⟩, hs'⟩

/-- Data of an ordinary cluster lies behind the FAT. -/
theorem writeVerified_spare {c : Nat} (hc : fs.Ordinary c) (block : Buf)
    {ok : Bool} (hs : Spare fs l info s)
    (hrun : writeVerified c block s = some (ok, s')) : Spare fs l info s' := by
  have hend := h.clustersEnd c hc.notLast hc.inFat
  refine hs.of_kept h ?_
  have hwithin : Within (Kept fs (· < fs.clusterBeginLba)) (writeVerified c block) := by
    apply Within.bind (writeCluster_kept h block hc.low (by omega))
    intro status
    apply Within.ite
    · exact Within.bind (text_kept _) fun _ => Within.pure _
    apply Within.bind (readCluster_kept c)
    intro read
    cases read with
    | none => exact Within.bind (text_kept _) fun _ => Within.pure _
    | some verify =>
        apply getFs_kept
        refine Within.ite ?_ (Within.pure true)
        exact Within.bind (text_kept _) fun _ => Within.pure _
  exact hwithin _ _ _ hrun

end Spare

/-! ## What a call may take -/

/-- The loop that frees a chain from `first` on frees at least these clusters. -/
inductive Freed (s : System) : Nat → List Nat → Prop
  | nil {first : Nat} : Freed s first []
  | cons {c : Nat} {rest : List Nat} :
      Live c → c < 128 * s.fat32.fs.fatSize → c ∉ rest →
      Freed s (linkOf s c) rest → Freed s c (c :: rest)

theorem Freed.congr {s s' : System} {first : Nat} {chain : List Nat}
    (hfreed : Freed s first chain) (hfs : s'.fat32.fs = s.fat32.fs)
    (hlinks : ∀ c ∈ chain, linkOf s' c = linkOf s c) : Freed s' first chain := by
  induction hfreed with
  | nil => exact .nil
  | @cons c rest hlive hin hnew _ ih =>
      refine .cons hlive (by rwa [hfs]) hnew ?_
      rw [hlinks c List.mem_cons_self]
      exact ih fun d hd => hlinks d (List.mem_cons_of_mem _ hd)

theorem Freed.inFat {s : System} {first : Nat} {chain : List Nat}
    (hfreed : Freed s first chain) : ∀ c ∈ chain, c < 128 * s.fat32.fs.fatSize := by
  induction hfreed with
  | nil => simp
  | cons _ hin _ _ ih => exact List.forall_mem_cons.mpr ⟨hin, ih⟩

section Calls

variable {fs : Fs} {l : List Nat} {info : Sector} {s s' : System} (h : fs.Placed)

include h

theorem freeCluster_links (hs : s.device.FaultFree) (hfs : s.fat32.fs = fs)
    {cluster : Nat} {status : Int} (hrun : freeCluster cluster s = some (status, s')) :
    ∀ d < 128 * fs.fatSize, linkOf s' d =
      if d = cluster % 1073741824 then free else linkOf s d := by
  obtain ⟨s₁, hset, -, hlinks⟩ := setNextCluster_links h hs hfs cluster free
  rw [freeCluster, Program.bind_of_some hset, if_pos rfl] at hrun
  cases hrun
  intro d hd
  have hlink := hlinks d hd
  rw [show free % 268435456 = free from rfl] at hlink
  rw [← hlink]
  apply linkOf_statics
  · beta_reduce
    split <;> rfl
  · beta_reduce
    split <;> rfl

theorem freeChain_freed {first : Nat} {chain : List Nat} (hs : Spare fs l info s)
    (hfreed : Freed s first chain) (hrun : freeChain first s = some ((), s')) :
    ∀ c ∈ chain, fs.Ordinary c → linkOf s' c = free := by
  induction chain generalizing s first with
  | nil => simp
  | cons c rest ih =>
      have hrest := List.forall_mem_cons.mp hfreed.inFat
      cases hfreed with
      | cons hlive hin hnew htail =>
          rw [freeChain, if_pos hlive,
            Program.bind_of_some (getNextCluster_faultFree hs.faultFree c)] at hrun
          obtain ⟨status, s₁, hfree, hrun⟩ := Program.exists_of_bind hrun
          have hs₁ := freeCluster_spare h c _ _ _ hfree hs
          have hsmall : c < 1073741824 := by
            have hhigh := hlive.2
            simp only [eoc] at hhigh
            omega
          have hlinks : ∀ d < 128 * fs.fatSize,
              linkOf s₁ d = if d = c then free else linkOf s d := by
            intro d hd
            rw [freeCluster_links h hs.faultFree hs.fs_eq hfree d hd,
              Nat.mod_eq_of_lt hsmall]
          have hkeep : ∀ d ∈ rest, linkOf s₁ d = linkOf s d := by
            intro d hd
            have hdin := hrest.2 d hd
            rw [hs.fs_eq] at hdin
            rw [hlinks d hdin, if_neg (by rintro rfl; exact hnew hd)]
          have hlater := ih hs₁ (htail.congr (by rw [hs₁.fs_eq, hs.fs_eq]) hkeep) hrun
          refine List.forall_mem_cons.mpr ⟨fun hc => ?_, hlater⟩
          have hone : Spare fs [c] info s₁ := by
            constructor
            case faultFree => exact hs₁.faultFree
            case fs_eq => exact hs₁.fs_eq
            case info_eq => exact hs₁.info_eq
            case ordinary => simpa using hc
            case free_eq => simpa using (hlinks c hc.inFat).trans (if_pos rfl)
          exact (freeChain_spare h _ _ _ _ hrun hone).free_eq c List.mem_cons_self

/-- The data loop ends on an ordinary cluster if there are enough of them. -/
theorem writeData_spare {data : List UInt8} {first prev first' last : Nat}
    (hs : Spare fs l info s) (hnodup : l.Nodup)
    (hroom : clustersFor data.length ≤ l.length) (hprev : prev ∉ l)
    (hbound : prev ≤ fs.totalClusters) (hstart : data = [] → 2 ≤ prev)
    (hrun : writeData data first prev s = some (some (first', last), s')) :
    2 ≤ last ∧ last ≤ fs.totalClusters ∧ Spare fs [] info s' := by
  induction hsize : data.length using Nat.strong_induction_on
    generalizing data first prev l s with
  | _ n ih =>
      rw [writeData] at hrun
      by_cases hdata : data.length > 0
      · rw [if_pos hdata] at hrun
        have hne : data ≠ [] := List.length_pos_iff.mp hdata
        have hrounds := clustersFor_drop hne
        obtain ⟨d, hd⟩ : ∃ d, d ∈ l :=
          List.exists_mem_of_length_pos (by omega)
        obtain ⟨c, s₁, halloc, hc, hs₁⟩ := allocateCluster_spare h hs hnodup hd
        have hlow := hc.low
        have hlength : l.length ≤ (l.erase c).length + 1 := by
          rw [List.length_erase]
          split <;> omega
        rw [Program.bind_of_some halloc, if_neg (by omega)] at hrun
        have hrest : ∀ u, Spare fs (l.erase c) info u → (do
            let fs ← getFs
            let chunk := min data.length fs.clusterBytes
            if ! (← writeVerified c (Buf.ofList (data.take chunk))) then
              return none
            writeData (data.drop chunk) (if first = 0 then c else first) c) u =
              some (some (first', last), s') →
            2 ≤ last ∧ last ≤ fs.totalClusters ∧ Spare fs [] info s' := by
          intro u hu hrun
          have hbytes : u.fat32.fs.clusterBytes = 4096 := by
            rw [hu.fs_eq, Fs.clusterBytes, h.sectorsPerCluster]
          rw [storePiece_apply hbytes] at hrun
          obtain ⟨ok, w, hwrite, hrun⟩ := Program.exists_of_bind hrun
          have hw := writeVerified_spare h hc _ hu hwrite
          cases ok with
          | false => cases hrun
          | true =>
              simp only [Bool.not_true, Bool.false_eq_true, if_false] at hrun
              refine ih _ ?_ hw (hnodup.erase c) ?_ hnodup.not_mem_erase hc.notLast
                (fun _ => hc.low) hrun rfl
              · rw [List.length_drop]
                omega
              · omega
        by_cases hzero : prev = 0
        · rw [if_neg (not_not.mpr hzero)] at hrun
          exact hrest s₁ hs₁ hrun
        · rw [if_pos hzero] at hrun
          have hout : prev % 1073741824 ∉ l.erase c := by
            have htotal := h.totalClusters
            rw [Nat.mod_eq_of_lt (by omega)]
            exact fun hmem => hprev (List.mem_of_mem_erase hmem)
          obtain ⟨s₂, hset, hs₂⟩ := setNextCluster_spare h hs₁ prev c
            fun hmem => absurd hmem hout
          rw [Program.bind_of_some hset] at hrun
          exact hrest s₂ hs₂ hrun
      · rw [if_neg hdata] at hrun
        cases hrun
        have hempty : data = [] := by simpa using hdata
        exact ⟨hstart hempty, hbound, hs.mono (by simp)⟩

end Calls

/-! ## The hint -/

def hintOf (s : System) : Nat := readLe (volumeSector s 1).toBuf 492 4

/-- A cluster of the volume, or the value for "unknown". -/
def Fs.UsableHint (fs : Fs) (hint : Nat) : Prop :=
  (2 ≤ hint ∧ hint ≤ fs.totalClusters + 1) ∨ hint = 0xFFFFFFFF

/-- A device without faults, with this volume and a hint that can be used. -/
structure Hinted (fs : Fs) (s : System) : Prop where
  faultFree : s.device.FaultFree
  fs_eq : s.fat32.fs = fs
  usable : fs.UsableHint (hintOf s)

section Updates

variable {fs : Fs} {s s' : System}

theorem Hinted.of_kept (hs : Hinted fs s) (hkept : Kept fs (· = 1) s s') :
    Hinted fs s' := by
  obtain ⟨hs', hfs', hsame⟩ := hkept hs.faultFree hs.fs_eq
  refine ⟨hs', hfs', ?_⟩
  rw [hintOf, hsame 1 (by omega) rfl]
  exact hs.usable

/-- Without a number the hint stays, and with one it is the number or stays. -/
theorem updateFsinfoIfKnown_hinted (hs : Hinted fs s) {nextFree : Nat}
    (hnext : nextFree < 4294967296)
    (husable : nextFree ≠ unknownCount → fs.UsableHint nextFree)
    (hrun : updateFsinfoIfKnown nextFree s = some ((), s')) : Hinted fs s' := by
  have hget : getFat32 s = some (s.fat32, s) := rfl
  rw [updateFsinfoIfKnown, Program.bind_of_some hget] at hrun
  split at hrun
  · rw [updateFsinfo] at hrun
    obtain ⟨status, after, hupdate, hpure⟩ := Program.exists_of_bind hrun
    cases hpure
    rw [Program.bind_of_some (readSector_faultFree hs.faultFree 1)] at hupdate
    simp only at hupdate
    by_cases hsignature : signatureAt (volumeSector s 1)
    · rw [if_neg (not_not.mpr hsignature)] at hupdate
      let info := infoSector (volumeSector s 1) s.fat32.freeClusters nextFree
      let s₁ := s.put (u64 (s.fat32.partitionOffset + 1)) info
      let s₂ := s₁.put (u64 (s₁.fat32.partitionOffset + 7)) info
      have hs₁ : s₁.device.FaultFree := hs.faultFree.put _ _
      have hfirst : writeSector 1 info s = some (0, s₁) :=
        blockWriteSector_eq hs.faultFree _ _
      have hsecond : writeSector 7 info s₁ = some (0, s₂) :=
        blockWriteSector_eq hs₁ _ _
      rw [Program.bind_of_some hfirst, if_neg (by decide),
        Program.bind_of_some hsecond] at hupdate
      have hafter : s' = s₂ := (Prod.mk.inj (Option.some.inj hupdate)).2.symm
      have hinfo : volumeSector s₂ 1 = info := by
        rw [volumeSector_put s₁ info (by omega) (by omega), if_neg (by omega),
          volumeSector_put s info (by omega) (by omega), if_pos rfl]
      rw [hafter]
      refine ⟨hs₁.put _ _, hs.fs_eq, ?_⟩
      rw [hintOf, hinfo, Volume.infoSector_hint _ _ hnext]
      split
      · next hknown => exact husable hknown
      · exact hs.usable
    · rw [if_pos hsignature] at hupdate
      cases hupdate
      exact hs
  · cases hrun
    exact hs

variable (h : fs.Placed)

include h

theorem writeCluster_hinted (hs : Hinted fs s) {cluster : Nat} (hlow : 2 ≤ cluster)
    (hend : fs.clusterBeginLba + 8 * cluster ≤ 4294967304) {buf : Buf} {status : Int}
    (hrun : writeCluster cluster buf s = some (status, s')) : Hinted fs s' := by
  have hbegin := h.clusterBeginLba
  apply hs.of_kept
  intro hfaults hfs
  obtain ⟨hs', hfs', hsame⟩ :=
    writeCluster_kept h buf hlow hend _ _ _ hrun hfaults hfs
  refine ⟨hs', hfs', fun lba hlba hone => hsame lba hlba ?_⟩
  omega

theorem removeEntry_hinted (hs : Hinted fs s) {cluster index : Nat}
    (hlive : Live cluster) (hrun : removeEntry cluster index s = some (0, s')) :
    Hinted fs s' := by
  rw [removeEntry, Program.bind_of_some (readCluster_faultFree hs.faultFree cluster)]
    at hrun
  obtain ⟨status, s₁, hwrite, hrun⟩ := Program.exists_of_bind hrun
  have hs₁ := writeCluster_hinted h hs hlive.1 (h.end_of_live hlive) hwrite
  by_cases hstatus : status = 0
  · rw [if_neg (not_not.mpr hstatus)] at hrun
    obtain ⟨_, s₂, hupdate, hpure⟩ := Program.exists_of_bind hrun
    cases hpure
    exact updateFsinfoIfKnown_hinted hs₁ (by decide) (fun hne => absurd rfl hne) hupdate
  · rw [if_pos hstatus] at hrun
    cases hrun

/-- The end of the two creating calls: the directory, the hint and the cache. -/
theorem finish_hinted (hs : Hinted fs s) {slot : Slot} (hlive : Live slot.cluster)
    {buf : Buf} {last : Nat} (hlow : 2 ≤ last) (hhigh : last ≤ fs.totalClusters)
    {message warning : String}
    (hrun : (do
      if (← writeCluster slot.cluster buf) ≠ 0 then
        text message
        return (-1 : Int)
      updateFsinfoIfKnown (u32 (last + 1))
      flushIfSata warning
      return 0) s = some (0, s')) : Hinted fs s' := by
  have htotal := h.totalClusters
  obtain ⟨status, s₁, hwrite, hrun⟩ := Program.exists_of_bind hrun
  have hs₁ := writeCluster_hinted h hs hlive.1 (h.end_of_live hlive) hwrite
  by_cases hstatus : status = 0
  · rw [if_neg (not_not.mpr hstatus)] at hrun
    obtain ⟨_, s₂, hupdate, hrun⟩ := Program.exists_of_bind hrun
    obtain ⟨_, s₃, hflush, hpure⟩ := Program.exists_of_bind hrun
    cases hpure
    have hs₂ : Hinted fs s₂ := by
      refine updateFsinfoIfKnown_hinted hs₁ (u32_lt _) (fun _ => .inl ?_) hupdate
      rw [u32_of_lt (by omega)]
      omega
    exact hs₂.of_kept (flushIfSata_kept _ _ _ _ hflush)
  · rw [if_pos hstatus] at hrun
    cases hrun

end Updates

/-! ## Four calls -/

/-- A write of this name replaces an entry whose chain starts at `first`. -/
def Replaces (s : System) (parent : Nat) (filename : List UInt8) (first : Nat) :
    Prop :=
  ∃ slot, findSlot skipNone (nameToFat filename) parent none s =
    some (.existing slot, s) ∧ first = (entryAt slot.buffer slot.index).firstCluster

/-- Enough clusters but the last are free, or become free with the old file. -/
def HasSpare (s : System) (parent : Nat) (filename : List UInt8) (count : Nat) :
    Prop :=
  ∃ l : List Nat, l.Nodup ∧ count ≤ l.length ∧
    ∀ c ∈ l, s.fat32.fs.Ordinary c ∧ (linkOf s c = free ∨
      ∃ first chain, Replaces s parent filename first ∧ Freed s first chain ∧
        c ∈ chain)

/-- The call takes a cluster, if it sets the hint, and need not take the last. -/
def Call.LeavesLast (s : System) : Call → Prop
  | writeFileIn parent filename data =>
      data ≠ [] ∧ HasSpare s parent filename (clustersFor data.length)
  | createDirectoryIn _ _ => ∃ c, s.fat32.fs.Ordinary c ∧ linkOf s c = free
  | deleteDirectoryIn _ _ => True
  | deleteFile _ => True

section Steps

variable {fs : Fs} {s s' : System} (h : fs.Placed)

include h

private theorem storeFile_hinted {l : List Nat} {info : Sector} {t : System}
    (hs : Spare fs l info t) (hhint : fs.UsableHint (readLe info.toBuf 492 4))
    (hnodup : l.Nodup) {name : Name} {data : List UInt8} {slot : Slot}
    (hlive : Live slot.cluster) (hdata : data ≠ [])
    (hroom : clustersFor data.length ≤ l.length)
    (hrun : storeFile name data slot t = some (0, s')) : Hinted fs s' := by
  obtain ⟨stored, s₁, hwrite, hrun⟩ := Program.exists_of_bind hrun
  cases stored with
  | none => cases hrun
  | some ends =>
      obtain ⟨first, last⟩ := ends
      have hzero : 0 ∉ l := fun hmem => absurd (hs.ordinary 0 hmem).low (by decide)
      obtain ⟨hlow, hhigh, hs₁⟩ := writeData_spare h hs hnodup hroom hzero
        (Nat.zero_le _) (fun hempty => absurd hempty hdata) hwrite
      have hhinted : Hinted fs s₁ := by
        refine ⟨hs₁.faultFree, hs₁.fs_eq, ?_⟩
        rw [hintOf, hs₁.info_eq]
        exact hhint
      exact finish_hinted h hhinted hlive hlow hhigh hrun

theorem writeFileIn_hinted (hs : Hinted fs s) {parent : Nat}
    {filename data : List UInt8} (hdata : data ≠ [])
    (hspare : HasSpare s parent filename (clustersFor data.length))
    (hrun : writeFileIn parent filename data s = some (0, s')) : Hinted fs s' := by
  obtain ⟨l, hnodup, hroom, hfree⟩ := hspare
  have hempty : Spare fs [] (volumeSector s 1) s :=
    ⟨hs.faultFree, hs.fs_eq, rfl, by simp, by simp⟩
  rw [writeFileIn, Program.bind_of_some (getFs_apply s)] at hrun
  by_cases hinit : s.fat32.fs.initialized = true
  · simp only [hinit, if_true] at hrun
    obtain ⟨result, u, hscan, hrun⟩ := Program.exists_of_bind hrun
    obtain ⟨hsame, hlive⟩ := findSlot_same hs.faultFree (skipNone_endsSlot _) hscan
    subst u
    cases result with
    | unreadable => cases hrun
    | existing slot =>
        obtain ⟨_, t, hchain, hrun⟩ := Program.exists_of_bind hrun
        refine storeFile_hinted h ?_ hs.usable hnodup (hlive (by simp)) hdata hroom hrun
        have ht := freeChain_spare h _ _ _ _ hchain hempty
        constructor
        case faultFree => exact ht.faultFree
        case fs_eq => exact ht.fs_eq
        case info_eq => exact ht.info_eq
        case ordinary =>
          intro c hc
          rw [← hs.fs_eq]
          exact (hfree c hc).1
        case free_eq =>
          intro c hc
          obtain ⟨hord, hc⟩ := hfree c hc
          rw [hs.fs_eq] at hord
          rcases hc with hc | ⟨first, chain, ⟨slot', hslot, rfl⟩, hfreed, hmem⟩
          · have hone : Spare fs [c] (volumeSector s 1) s :=
              ⟨hs.faultFree, hs.fs_eq, rfl, by simpa using hord, by simpa using hc⟩
            exact (freeChain_spare h _ _ _ _ hchain hone).free_eq c List.mem_cons_self
          · rw [hscan] at hslot
            cases hslot
            exact freeChain_freed h hempty hfreed hchain c hmem hord
    | free slot =>
        cases slot with
        | none =>
            cases hrun
        | some slot =>
            refine storeFile_hinted h ?_ hs.usable hnodup
              (hlive (by simp) slot rfl) hdata hroom hrun
            constructor
            case faultFree => exact hs.faultFree
            case fs_eq => exact hs.fs_eq
            case info_eq => rfl
            case ordinary =>
              intro c hc
              rw [← hs.fs_eq]
              exact (hfree c hc).1
            case free_eq =>
              intro c hc
              rcases (hfree c hc).2 with hc | ⟨first, chain, ⟨slot', hslot, -⟩, -, -⟩
              · exact hc
              · rw [hscan] at hslot
                cases hslot
  · simp only [hinit] at hrun
    cases hrun

theorem createDirectoryIn_hinted (hs : Hinted fs s) {parent : Nat}
    {dirname : List UInt8} (hspare : ∃ c, s.fat32.fs.Ordinary c ∧ linkOf s c = free)
    (hrun : createDirectoryIn parent dirname s = some (0, s')) : Hinted fs s' := by
  obtain ⟨d, hord, hfree⟩ := hspare
  rw [hs.fs_eq] at hord
  have hone : Spare fs [d] (volumeSector s 1) s :=
    ⟨hs.faultFree, hs.fs_eq, rfl, by simpa using hord, by simpa using hfree⟩
  rw [createDirectoryIn, Program.bind_of_some (getFs_apply s)] at hrun
  by_cases hinit : s.fat32.fs.initialized = true
  · simp only [hinit, if_true] at hrun
    obtain ⟨result, u, hscan, hrun⟩ := Program.exists_of_bind hrun
    obtain ⟨hsame, hlive⟩ := findSlot_same hs.faultFree (skipDots_endsSlot _ _) hscan
    subst u
    cases result with
    | unreadable => cases hrun
    | existing slot =>
        cases hrun
    | free slot =>
        cases slot with
        | none =>
            cases hrun
        | some slot =>
            obtain ⟨c, s₁, halloc, hc, hs₁⟩ :=
              allocateCluster_spare h hone (by simp) List.mem_cons_self
            have hend := h.clustersEnd c hc.notLast hc.inFat
            have hlow := hc.low
            have hhinted : Hinted fs s₁ := by
              refine ⟨hs₁.faultFree, hs₁.fs_eq, ?_⟩
              rw [hintOf, hs₁.info_eq]
              exact hs.usable
            simp only at hrun
            rw [storeDirectory, Program.bind_of_some halloc, if_neg (by omega),
              Program.bind_of_some (getFs_apply s₁)] at hrun
            obtain ⟨status, s₂, hwrite, hrun⟩ := Program.exists_of_bind hrun
            have hs₂ := writeCluster_hinted h hhinted hlow (by omega) hwrite
            by_cases hstatus : status = 0
            · rw [if_neg (not_not.mpr hstatus)] at hrun
              exact finish_hinted h hs₂ (hlive (by simp) slot rfl) hlow hc.notLast hrun
            · rw [if_pos hstatus] at hrun
              obtain ⟨_, t, -, hrun⟩ := Program.exists_of_bind hrun
              obtain ⟨_, t', -, hpure⟩ := Program.exists_of_bind hrun
              cases hpure
  · simp only [hinit] at hrun
    cases hrun

theorem deleteDirectoryIn_hinted (hs : Hinted fs s) {parent : Nat}
    {dirname : List UInt8} (hrun : deleteDirectoryIn parent dirname s = some (0, s')) :
    Hinted fs s' := by
  rw [deleteDirectoryIn, Program.bind_of_some (getFs_apply s)] at hrun
  by_cases hinit : s.fat32.fs.initialized = true
  · simp only [hinit, if_true] at hrun
    obtain ⟨found, u, hfind, hrun⟩ := Program.exists_of_bind hrun
    obtain ⟨hsame, hlive⟩ := findEntry_same hs.faultFree hfind
    subst u
    cases found with
    | none =>
        cases hrun
    | some p =>
        simp only at hrun
        by_cases hdir : p.entry.HasAttr attrDirectory
        · rw [if_neg (not_not.mpr hdir)] at hrun
          obtain ⟨empty, u, hempty, hrun⟩ := Program.exists_of_bind hrun
          have hsame := isDirectoryEmpty_same hs.faultFree hempty
          subst u
          by_cases hzero : empty = 0
          · rw [if_pos hzero] at hrun
            cases hrun
          · rw [if_neg hzero] at hrun
            obtain ⟨status, t, hfree, hrun⟩ := Program.exists_of_bind hrun
            have ht := hs.of_kept (freeCluster_kept h _ _ _ _ hfree)
            exact removeEntry_hinted h ht (hlive p rfl) hrun
        · rw [if_pos hdir] at hrun
          cases hrun
  · simp only [hinit] at hrun
    cases hrun

theorem deleteFile_hinted (hs : Hinted fs s) {filename : List UInt8}
    (hrun : deleteFile filename s = some (0, s')) : Hinted fs s' := by
  rw [deleteFile, Program.bind_of_some (getFs_apply s)] at hrun
  by_cases hinit : s.fat32.fs.initialized = true
  · simp only [hinit, if_true] at hrun
    obtain ⟨found, u, hfind, hrun⟩ := Program.exists_of_bind hrun
    obtain ⟨hsame, hlive⟩ := findEntry_same hs.faultFree hfind
    subst u
    cases found with
    | none => cases hrun
    | some p =>
        obtain ⟨_, t, hchain, hrun⟩ := Program.exists_of_bind hrun
        have hwithin : Within (Kept fs (· = 1)) (freeChain p.entry.firstCluster) := by
          refine freeChain_within (fun c => ?_) (fun c _ => freeCluster_kept h c) _
          intro s a s' hrun hs hfs
          rw [getNextCluster_faultFree hs] at hrun
          cases hrun
          exact ⟨hs, hfs, fun _ _ _ => rfl⟩
        have ht := hs.of_kept (hwithin _ _ _ hchain)
        exact removeEntry_hinted h ht (hlive p rfl) hrun
  · simp only [hinit] at hrun
    cases hrun

/-- A call that returns 0 leaves a hint that can be used. -/
theorem Call.run_hinted (hs : Hinted fs s) {c : Call} (hok : c.LeavesLast s)
    (hrun : c.run s = some (0, s')) : Hinted fs s' := by
  cases c with
  | writeFileIn parent filename data =>
      exact writeFileIn_hinted h hs hok.1 hok.2 hrun
  | createDirectoryIn parent dirname => exact createDirectoryIn_hinted h hs hok hrun
  | deleteDirectoryIn parent dirname => exact deleteDirectoryIn_hinted h hs hrun
  | deleteFile filename => exact deleteFile_hinted h hs hrun

end Steps

/-! ## Runs of calls -/

/-- The states of a new volume after calls that return 0 and meet `ok`. -/
inductive CallHistory (total : UInt64) (label : Option (List UInt8))
    (ok : System → Call → Prop) : System → Prop
  | mount {s formatted mounted : System} :
      s.device.FaultFree → format total label s = some (0, formatted) →
      init formatted = some (0, mounted) →
      2 ≤ mounted.fat32.fs.totalClusters → CallHistory total label ok mounted
  | call {s s' : System} {c : Call} :
      CallHistory total label ok s → ok s c → c.run s = some (0, s') →
      CallHistory total label ok s'

theorem exists_mounted_any {s : System} (hs : s.device.FaultFree) (total : UInt64)
    (label : Option (List UInt8)) :
    ∃ formatted mounted, format total label s = some (0, formatted) ∧
      init formatted = some (0, mounted) ∧ mounted.device.FaultFree ∧
      mounted.fat32.fs = formattedFs (u32 total.toNat) ∧
      volumeSector mounted 1 = newInfoSector (u32 total.toNat) := by
  obtain ⟨s', hformat, hs'⟩ := format_moves_any (partitionOf s) total label s
    ⟨hs, rfl, fun _ _ => rfl⟩
  obtain ⟨s'', hinit, hs''⟩ := init_moves _ (u32_lt total.toNat) label
    (Partition.formatted_boot _ _ _ _) (Partition.formatted_info _ _ _ _) s' hs'
  refine ⟨s', s'', hformat, hinit, hs''.faultFree, ?_, ?_⟩
  · rw [hs''.statics]
    rfl
  · have hinfo : ((partitionOf s).formatted (bootSector (u32 total.toNat) label)
        (newInfoSector (u32 total.toNat)) (formatFatSize (u32 total.toNat))
        (u32 (formatClusters (u32 total.toNat) + 4294967295))).sectors 1 =
          newInfoSector (u32 total.toNat) := Partition.formatted_info _ _ _ _
    rw [hs''.sectors 1 (by omega), Partition.withStatics, hinfo]

/-- The hint can be used after every history whose calls spare the last cluster. -/
theorem hint_usable {total : UInt64} {label : Option (List UInt8)} {s : System}
    (hs : CallHistory total label (fun s c => c.LeavesLast s) s) :
    s.fat32.fs.UsableHint (hintOf s) := by
  have hplaced := formattedFs_placed (u32 total.toNat)
  suffices hhinted : Hinted (formattedFs (u32 total.toNat)) s by
    rw [hhinted.fs_eq]
    exact hhinted.usable
  induction hs with
  | @mount s formatted mounted hfaults hformat hinit hclusters =>
      obtain ⟨s', s'', hformat', hinit', hs'', hfs, hinfo⟩ :=
        exists_mounted_any hfaults total label
      rw [hformat] at hformat'
      cases hformat'
      rw [hinit] at hinit'
      cases hinit'
      refine ⟨hs'', hfs, .inl ?_⟩
      rw [hfs] at hclusters
      have hhint : hintOf mounted = 3 := by
        rw [hintOf, hinfo, newInfoSector_hint]
      rw [hhint]
      omega
  | call _ hok hrun ih => exact Call.run_hinted hplaced ih hok hrun

private theorem exists_small_volume (ok : System → Call → Prop) :
    ∃ s, CallHistory 100 none ok s ∧ Represents s (volumeOf s) ∧
      (volumeOf s).Fresh 1 8 := by
  have hstart := System.startup_faultFree fun _ => Sector.zero
  obtain ⟨formatted, s, hformat, hinit, hrep, hfresh⟩ :=
    @mount_executes _ hstart 100 (by decide) none
  refine ⟨s, .mount hstart hformat hinit ?_, hrep, hfresh⟩
  have htotal : s.fat32.fs.totalClusters = 8 := congrArg Fs.totalClusters hfresh.fs
  omega

theorem hint_usable_after_mkdir :
    ∃ s, CallHistory 100 none (fun s c => c.LeavesLast s) s ∧
      s.fat32.fs.UsableHint (hintOf s) := by
  obtain ⟨s, hs, hrep, hfresh⟩ := exists_small_volume fun s c => c.LeavesLast s
  have hleaked : (volumeOf s).Leaked 8 0 := hfresh.leaked hrep.layout (by decide)
  obtain ⟨v, p, hcreate, -⟩ := hleaked.create
  obtain ⟨s', hrun, -⟩ := hcreate s hrep
  have hspare : (Call.createDirectoryIn 2 roundDirectory).LeavesLast s := by
    have hfs : s.fat32.fs = newFs 1 8 := hfresh.fs
    refine ⟨3, ?_, ?_⟩
    · rw [hfs]
      exact ⟨by decide, by decide, by decide⟩
    · have hlink := hfresh.link 3 (by rw [hfresh.fs]; decide)
      rw [if_neg (by decide)] at hlink
      have hplaced := formattedFs_placed 100
      have hvolume : (volumeOf s).link 3 = linkOf s 3 := by
        rw [hplaced.linkOf_eq hfs (by decide)]
        simp only [volumeOf, Partition.volume, partitionOf, Partition.link, hfs]
        rfl
      rw [← hvolume, hlink]
  have hhistory := CallHistory.call hs hspare hrun
  exact ⟨s', hhistory, hint_usable hhistory⟩

/-- An empty file leaves the hint 1. -/
theorem hint_not_usable_after_empty_file :
    ¬ ∀ (total : UInt64) (label : Option (List UInt8)) (s : System),
      CallHistory total label (fun _ _ => True) s →
      s.fat32.fs.UsableHint (hintOf s) := by
  intro hclaim
  obtain ⟨s, hs, hrep, hfresh⟩ := exists_small_volume fun _ _ => True
  have hleaked : (volumeOf s).Leaked 8 0 := hfresh.leaked hrep.layout (by decide)
  rcases writeFileIn_cases roundFile hrep.layout hleaked.regular.wellFormed
      hleaked.directory with ⟨hall, -⟩ | ⟨p, old, htarget, hwrite, -⟩
  · have hq : ((2, 0) : Place) ∈ places [2] := by simp [mem_places]
    exact hleaked.unused _ hq (hall _ hq).1
  obtain rfl := htarget.unused (hleaked.unused p htarget.mem)
  have htaken : (volumeOf s).taken [] ([] : List UInt8).length = [] := rfl
  obtain ⟨s', hrun, hrep'⟩ := (hwrite []
    (by rw [htaken]; simp) (by rw [htaken]; rfl)).2 hleaked.infoApart s hrep
  have husable := hclaim 100 none s' <|
    .call (c := .writeFileIn 2 roundFile []) hs trivial hrun
  obtain ⟨-, -, hvolume⟩ := represents_iff.mp hrep'
  have hcount : (volumeOf s).freeClusters = 7 := hfresh.count
  have hinfo : volumeSector s' 1 = infoSector (volumeOf s).info 7 1 := by
    have hfs : (volumeOf s').fs = (volumeOf s).fs := by
      rw [hvolume, Volume.written_fs]
    have hreserved := hleaked.reserved
    rw [← hfs] at hreserved
    have hleft : (volumeOf s').info = volumeSector s' 1 :=
      if_pos (le_trans (by decide) hreserved)
    have hknown : (volumeOf s).freeClusters ≠ unknownCount := by
      rw [hcount]
      decide
    rw [← hleft, hvolume, Volume.written, htaken, ← hcount]
    simp [Volume.release, Volume.fill, Volume.setData, Volume.setInfo, Volume.finish,
      updatedInfo, hknown, hfresh.signature, u32]
  rw [hintOf, hinfo, Volume.infoSector_hint _ _ (by decide), if_pos (by decide)]
    at husable
  simp [Fs.UsableHint] at husable

end EntropyOS.Fat32
