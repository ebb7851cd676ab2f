import EntropyOS.Fat32.Confinement
import EntropyOS.Fat32.Geometry

/-!
# Damaged volumes

The driver takes cluster numbers from directory entries and from the FAT as
they are.  Where those that a call frees or rewrites are clusters of the
volume, the call writes nothing outside the structures of the volume, whatever
else the disk holds and whichever transfers fail.
-/

namespace EntropyOS.Fat32

open EntropyOS.Foundation

/-! ## The sectors of a volume -/

/-- The FSInfo sectors, the copies of the FAT and the clusters. -/
def Fs.Owns (fs : Fs) (lba : Nat) : Prop :=
  lba = 1 ∨ lba = 7 ∨
    fs.fatBeginLba ≤ lba ∧ lba < fs.fatBeginLba + fs.numFats * fs.fatSize ∨
    ∃ c k, fs.InRange c ∧ k < fs.sectorsPerCluster ∧
      lba = fs.clusterBeginLba + (c - 2) * fs.sectorsPerCluster + k

namespace Fs.Fitted

variable {fs : Fs} (h : fs.Fitted) {c : Nat}

include h

theorem owns_fatSector (hc : c < fs.totalClusters + 2) :
    fs.Owns (fs.fatSector c) := by
  obtain ⟨hsector, hin⟩ := h.fatSector_eq hc
  have hcopies := h.copies_le
  exact .inr (.inr (.inl (by omega)))

theorem owns_backup (hc : c < fs.totalClusters + 2) (hcopies : fs.numFats > 1) :
    fs.Owns (u32 (fs.fatSector c + fs.fatSize)) := by
  obtain ⟨hsector, hin⟩ := h.fatSector_eq hc
  have hbegin := h.clusterBegin
  have hend := h.clustersEnd
  have htwo : 2 * fs.fatSize ≤ fs.numFats * fs.fatSize :=
    Nat.mul_le_mul_right _ hcopies
  rw [u32_of_lt (by omega)]
  exact .inr (.inr (.inl (by omega)))

theorem owns_cluster (hc : fs.InRange c) {k : Nat}
    (hk : k < fs.sectorsPerCluster) : fs.Owns (fs.clusterToLba c + k) := by
  rw [h.clusterToLba_eq hc]
  exact .inr (.inr (.inr ⟨c, k, hc, hk, rfl⟩))

theorem setNextCluster_owned (hc : c < fs.totalClusters + 2) (next : Nat) :
    Confined fs (Footprint fs.Owns) (setNextCluster c next) := by
  apply Confined.getFs
  refine Confined.bind (Confined.readSector _) fun read => ?_
  cases read with
  | none => exact Confined.pure _
  | some sector =>
      refine Confined.bind (Footprint.writeSector _ (h.owns_fatSector hc))
        fun status => Confined.ite (fun _ => Confined.pure _) fun _ => ?_
      refine Confined.ite (fun hcopies => ?_) fun _ => Confined.pure _
      exact Confined.bind (Footprint.writeSector _ (h.owns_backup hc hcopies))
        fun status => Confined.ite (fun _ => Confined.pure _)
          fun _ => Confined.pure _

theorem allows_footprint : fs.Allows (Footprint fs.Owns) where
  link next hc := h.setNextCluster_owned hc next
  data sector hc hk := Footprint.writeSector sector (h.owns_cluster hc hk)
  info sector := Footprint.writeSector sector (.inl rfl)
  backupInfo sector := Footprint.writeSector sector (.inr (.inl rfl))

end Fs.Fitted

/-! ## Mounted volumes -/

/-- A boot sector whose layout fits the sectors that it counts. -/
structure FittingBoot (boot : Buf) : Prop where
  sectorsPerCluster : 1 ≤ (boot 13).toNat ∧ (boot 13).toNat ≤ 8
  numFats : 1 ≤ (boot 16).toNat
  fatLarge : (Fs.ofBoot boot).totalClusters + 2 ≤ 128 * readLe boot 36 4
  layoutFits : readLe boot 14 2 + (boot 16).toNat * readLe boot 36 4 ≤
    readLe boot 32 4

theorem FittingBoot.fitted {boot : Buf} (h : FittingBoot boot) :
    (Fs.ofBoot boot).Fitted := by
  have htotal : readLe boot 32 4 < 4294967296 := readLe_lt boot 32 4
  have hfits := h.layoutFits
  have hbegin : (Fs.ofBoot boot).clusterBeginLba =
      readLe boot 14 2 + (boot 16).toNat * readLe boot 36 4 := u32_of_lt (by omega)
  have hdata : (Fs.ofBoot boot).totalClusters * (boot 13).toNat ≤
      readLe boot 32 4 - (Fs.ofBoot boot).clusterBeginLba := by
    have hle := Nat.div_mul_le_self (u32 (readLe boot 32 4 + 4294967296 -
      (Fs.ofBoot boot).clusterBeginLba)) (boot 13).toNat
    have hwrap : u32 (readLe boot 32 4 + 4294967296 -
        (Fs.ofBoot boot).clusterBeginLba) =
        readLe boot 32 4 - (Fs.ofBoot boot).clusterBeginLba := by
      simp only [u32]
      omega
    rw [hwrap] at hle
    calc (Fs.ofBoot boot).totalClusters * (boot 13).toNat
        = (readLe boot 32 4 - (Fs.ofBoot boot).clusterBeginLba) /
            (boot 13).toNat * (boot 13).toNat := by
          rw [← hwrap]
          rfl
      _ ≤ _ := hle
  constructor
  case sectorsPerCluster => exact h.sectorsPerCluster.1
  case numFats => exact h.numFats
  case fatLarge => exact h.fatLarge
  case clusterBegin => exact hbegin
  case clustersEnd =>
    change (Fs.ofBoot boot).clusterBeginLba +
      (Fs.ofBoot boot).totalClusters * (boot 13).toNat < 4294967296
    omega

theorem init_ofBoot {s s' : System} (hinit : init s = some (0, s')) :
    s'.fat32.fs = .ofBoot (volumeSector s 0).toBuf := by
  by_cases hread : ∃ boot, BootRead s boot
  · obtain ⟨boot, hboot⟩ := hread
    by_cases hsize : boot 13 = 0
    · rw [init_traps hboot hsize] at hinit
      cases hinit
    · obtain ⟨mounted, hmounted, hfs⟩ := init_accepts hboot hsize
      rw [hinit] at hmounted
      cases hmounted
      rw [hfs, hboot.eq]
  · obtain ⟨mounted, hmounted⟩ := init_refuses (not_exists.mp hread)
    rw [hinit] at hmounted
    cases hmounted

theorem bootSector_fitting : FittingBoot (bootSector 100 none).toBuf where
  sectorsPerCluster := by decide
  numFats := by decide
  fatLarge := by
    rw [ofBoot_bootSector none (by decide), boot_fatSize]
    decide
  layoutFits := by
    have hfs := @ofBoot_bootSector none 100 (by decide)
    have hbegin : readLe (bootSector 100 none).toBuf 14 2 = 32 :=
      congrArg Fs.fatBeginLba hfs
    rw [hbegin, boot_total, boot_fatSize]
    decide

theorem formattedFs_owned_lt {total lba : Nat} (h : Formattable total)
    (howned : (formattedFs total).Owns lba) : lba < total := by
  have hclusters := h.clusters_le
  have hreserved := h.reserved
  have hroot := h.root
  rcases howned with rfl | rfl | ⟨-, hlt⟩ | ⟨c, k, hc, hk, rfl⟩
  · omega
  · omega
  · change lba < 32 + 2 * formatFatSize total at hlt
    omega
  · have hlast := hc.2
    change c < formatClusters total + 2 at hlast
    change k < 8 at hk
    change 32 + 2 * formatFatSize total + (c - 2) * 8 + k < total
    omega

/--
Of a volume that fits, a call writes its own structures only, as long as the
clusters that it frees or rewrites are clusters of the volume.
-/
theorem call_writes_owned {start mounted s s' : System}
    (hinit : init start = some (0, mounted))
    (hfits : FittingBoot (volumeSector start 0).toBuf)
    (hfs : s.fat32.fs = mounted.fat32.fs) {c : Call} (hstays : c.StaysInside s)
    {status : Int} (hrun : c.run s = some (status, s')) :
    Footprint mounted.fat32.fs.Owns s s' := by
  have hfitted : s.fat32.fs.Fitted := by
    rw [hfs, init_ofBoot hinit]
    exact hfits.fitted
  rw [← hfs]
  exact Call.run_confined hfitted hfitted.allows_footprint hstays hrun

/-- A damaged file whose chain is that of the root directory. -/
theorem root_chain_deleted_owned :
    ∃ s s', init (.startup (diskWithEntry (oddEntry 2))) = some (0, s) ∧
      deleteFile roundFile s = some (0, s') ∧
      Footprint s.fat32.fs.Owns s s' := by
  obtain ⟨s, hinit, hmounted, v, hs, hentry, hfs, hlink⟩ :=
    exists_mounted_with_entry (oddEntry 2)
  obtain ⟨-, -, heq⟩ := represents_iff.mp hs
  have hsfs : s.fat32.fs = formattedFs 100 := by
    rw [← hfs, ← heq]
    rfl
  have hrange : v.fs.InRange 2 := by
    rw [hfs]
    decide
  obtain ⟨t, hfind, ht⟩ := hs.find_only hrange hlink hentry rfl
    (fun h => absurd h (by decide : ¬ attrArchive &&& attrVolumeId ≠ 0))
  have hfirst : (oddEntry 2).firstCluster = 2 :=
    DirEntry.make_firstCluster _ _ _ (by omega)
  have hnext : linkOf s 2 = 0x0FFFFFFF := by
    rw [← hlink, ← heq, linkOf, hsfs]
    change _ = if 2 < s.fat32.fs.totalClusters + 2 then _ else _
    rw [if_pos (by rw [hsfs]; decide), Partition.link, partitionOf]
    simp only [hsfs]
    rfl
  have hstays : Stays s 2 := by
    intro k hk
    cases k with
    | zero =>
        rw [hsfs]
        exact (by decide : (formattedFs 100).InRange 2)
    | succ k =>
        have hone := hk 1 (by omega)
        rw [Function.iterate_one, hnext] at hone
        exact absurd hone (by decide)
  have hinfo : v.InfoApart := by
    refine Volume.infoApart_of_reserved ht.layout ?_
    rw [hfs]
    decide
  have hwalk : Walk v.link Live 2 [2] 0x0FFFFFFF :=
    .step (by decide) (by rw [hlink]; exact .stop (by decide))
  have hbound : ∀ c ∈ [2], c < v.fs.totalClusters + 2 := by
    intro c hc
    rw [List.mem_singleton.mp hc]
    exact hrange.2
  have hrest : Executes v (do
      freeChain 2
      removeEntry 2 0) 0 (v.removed (2, 0) [2]) :=
    Runs.bind (freeChain_executes hwalk hbound)
      (removeEntry_executes (p := (2, 0)) [2] hinfo hrange)
  obtain ⟨s', hrun, -⟩ := hrest t ht
  have hdelete : deleteFile roundFile s = some (0, s') := by
    rw [deleteFile, Program.bind_of_some (getFs_apply s), if_pos hmounted.initialized,
      hsfs]
    refine (Program.bind_of_some hfind).trans ?_
    dsimp only
    rw [hfirst]
    exact hrun
  refine ⟨s, s', hinit, hdelete, call_writes_owned hinit bootSector_fitting rfl
    (c := .deleteFile roundFile) ?_ hdelete⟩
  intro found u hfound
  rw [hsfs] at hfound
  change findEntry 2 _ s = _ at hfound
  rw [hfind] at hfound
  cases hfound
  exact ⟨by rw [hsfs]; decide, by rw [hfirst]; exact hstays⟩

/--
Whatever call a session goes on with and whatever it returns, it writes FSInfo,
the FATs and clusters only, and nothing behind the size that was formatted.
-/
theorem session_writes_inside {total : UInt64} {label : Option (List UInt8)}
    {s s' : System} (h : Formattable total.toNat)
    (hs : Session total label (fun v c => c.HasRoom v) s) {c : Call}
    (hproper : c.Proper (volumeOf s)) {status : Int}
    (hrun : c.run s = some (status, s')) :
    Footprint (fun lba => s.fat32.fs.Owns lba ∧ lba < total.toNat) s s' := by
  have hroom : ∀ v (c : Call), c.HasRoom v → c.HasRoom v := fun _ _ hok => hok
  have hfootprint := hs.run_confined h hroom (formattedFs_fitted h).allows_footprint
    hproper hrun
  refine ⟨hfootprint.fs, hfootprint.offset, ?_⟩
  obtain ⟨new, hnew, hinside⟩ := hfootprint.writes
  refine ⟨new, hnew, fun w hw => ?_⟩
  obtain ⟨lba, howned, hat⟩ := hinside w hw
  rw [hs.fs_eq h hroom]
  exact ⟨lba, ⟨howned, formattedFs_owned_lt h howned⟩, hat⟩

theorem mkdir_writes_inside :
    ∃ s s', Session 100 none (fun v c => c.HasRoom v) s ∧
      createDirectoryIn 2 roundDirectory s = some (0, s') ∧
      Footprint (fun lba => s.fat32.fs.Owns lba ∧ lba < (100 : UInt64).toNat) s s' := by
  obtain ⟨s, s', hs, hproper, hrun, -⟩ := exists_session_with_directory
  exact ⟨s, s', hs, hrun, session_writes_inside (by decide) hs hproper hrun⟩

theorem setNextCluster_writes {s : System} (hs : s.device.FaultFree)
    (cluster next : Nat) :
    ∃ status s' new, setNextCluster cluster next s = some (status, s') ∧
      s'.device.FaultFree ∧ s'.fat32 = s.fat32 ∧
      s'.device.writes = new ++ u64 (s.fat32.partitionOffset +
        s.fat32.fs.fatSector cluster) :: s.device.writes := by
  have hwrites : ∃ new, (withLink s cluster next).device.writes =
      new ++ u64 (s.fat32.partitionOffset + s.fat32.fs.fatSector cluster) ::
        s.device.writes := by
    unfold withLink
    dsimp only
    split
    · exact ⟨[_], rfl⟩
    · exact ⟨[], rfl⟩
  obtain ⟨new, hnew⟩ := hwrites
  exact ⟨0, _, new, setNextCluster_faultFree cluster next hs,
    withLink_faultFree cluster next hs, withLink_fat32 s cluster next, hnew⟩

/-- An empty directory whose entry names a cluster far behind the volume. -/
def farEntry : DirEntry :=
  .make (nameToFat roundFile) attrDirectory 0x0FFFFFF8 0

/-- Deleting that directory writes a sector behind the volume. -/
theorem far_directory_deleted_outside :
    ¬ ∀ (start s s' : System) (parent : Nat) (dirname : List UInt8) (status : Int),
      init start = some (0, s) →
      FittingBoot (volumeSector start 0).toBuf →
      s.fat32.fs.InRange parent →
      deleteDirectoryIn parent dirname s = some (status, s') →
      Footprint s.fat32.fs.Owns s s' := by
  intro hclaim
  obtain ⟨s, hinit, hmounted, v, hs, hentry, hfs, hlink⟩ :=
    exists_mounted_with_entry farEntry
  obtain ⟨-, -, heq⟩ := represents_iff.mp hs
  have hsfs : s.fat32.fs = formattedFs 100 := by
    rw [← hfs, ← heq]
    rfl
  have hrange : (formattedFs 100).InRange 2 := by decide
  obtain ⟨t, hfind, ht⟩ := hs.find_only (hfs ▸ hrange) hlink hentry rfl
    (fun h => absurd h (by decide : ¬ attrDirectory &&& attrVolumeId ≠ 0))
  have hfirst : farEntry.firstCluster = 0x0FFFFFF8 :=
    DirEntry.make_firstCluster _ _ _ (by omega)
  have hstill := findEntry_still _ _ _ _ _ hfind
  obtain ⟨htfault, -, -⟩ := represents_iff.mp ht
  have htfs : t.fat32.fs = formattedFs 100 := by rw [hstill.fs, hsfs]
  -- the test takes a number like an end mark for an empty directory
  have hempty : isDirectoryEmpty 0x0FFFFFF8 t = some (1, t) := by
    rw [isDirectoryEmpty]
    exact congrFun (if_neg (by decide : ¬ Live 0x0FFFFFF8)) t
  obtain ⟨result, u, new, hset, hufault, hufat, huwrites⟩ :=
    setNextCluster_writes htfault 0x0FFFFFF8 free
  have hfree : ∃ w, freeCluster 0x0FFFFFF8 t = some (result, w) ∧
      w.device = u.device ∧ w.fat32.fs = u.fat32.fs := by
    unfold freeCluster
    rw [Program.bind_of_some hset]
    split
    · refine ⟨_, rfl, rfl, ?_⟩
      dsimp only
      split
      · rfl
      · rfl
    · exact ⟨_, rfl, rfl, rfl⟩
  obtain ⟨w, hfreed, hwdevice, hwfs⟩ := hfree
  have hwlayout : w.fat32.fs = formattedFs 100 := by rw [hwfs, hufat, htfs]
  have hwrep : Represents w (volumeOf w) := by
    rw [represents_iff, hwlayout, hwdevice]
    exact ⟨hufault, formattedFs_layout (by decide), rfl⟩
  have hwinfo : (volumeOf w).InfoApart := by
    refine Volume.infoApart_of_reserved hwrep.layout ?_
    change 8 ≤ w.fat32.fs.fatBeginLba
    rw [hwlayout]
    exact (by decide : 8 ≤ (formattedFs 100).fatBeginLba)
  obtain ⟨s', hremoved, -⟩ := removeEntry_executes (p := (2, 0)) [] hwinfo
    (show w.fat32.fs.InRange 2 from hwlayout ▸ hrange) w hwrep
  have hrun : deleteDirectoryIn 2 roundFile s = some (0, s') := by
    rw [deleteDirectoryIn, Program.bind_of_some (getFs_apply s),
      if_pos hmounted.initialized]
    refine (Program.bind_of_some hfind).trans ?_
    dsimp only
    rw [if_neg (by decide), hfirst, Program.bind_of_some hempty, if_neg (by decide),
      Program.bind_of_some hfreed]
    exact hremoved
  have hlast := removeEntry_confined
    (formattedFs_fitted (by decide : Formattable 100)).allows_footprint hrange 0 w 0 s'
    hwlayout hremoved
  obtain ⟨late, hlate, -⟩ := hlast.writes
  obtain ⟨all, hall, hinside⟩ := (hclaim _ s s' 2 roundFile 0 hinit
    bootSector_fitting (hsfs ▸ hrange) hrun).writes
  have hsplit : all ++ s.device.writes = (late ++ new ++
      [u64 (t.fat32.partitionOffset + (formattedFs 100).fatSector 0x0FFFFFF8)]) ++
      s.device.writes := by
    rw [← hall, hlate, hwdevice, huwrites, htfs, hstill.writes]
    simp
  obtain ⟨lba, howned, hat⟩ := hinside
    (u64 (t.fat32.partitionOffset + (formattedFs 100).fatSector 0x0FFFFFF8))
    (by rw [List.append_cancel_right hsplit]; simp)
  rw [hsfs] at howned
  have hlt := formattedFs_owned_lt (by decide) howned
  have hsector : (formattedFs 100).fatSector 0x0FFFFFF8 = 2097183 := by decide
  rw [hstill.offset, hsector] at hat
  have hplace := u64_add_inj (by decide) (by omega) hat
  omega

end EntropyOS.Fat32
