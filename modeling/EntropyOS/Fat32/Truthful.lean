import EntropyOS.Fat32.Faults
import EntropyOS.Fat32.Leak
import EntropyOS.Fat32.Reading

/-!
# Reads that report success

`fat32_read_file_in` copies what it finds on the chain and reports the size it
was asked for.  The two agree as long as the chain holds that many bytes.
-/

namespace EntropyOS.Fat32

open EntropyOS.Foundation

/-- What `fat32_init` leaves when it accepts a disk with clusters of this size. -/
structure Mounted (s : System) : Prop where
  initialized : s.fat32.fs.initialized = true
  one_le : 1 ≤ s.fat32.fs.sectorsPerCluster
  le_eight : s.fat32.fs.sectorsPerCluster ≤ 8

theorem Mounted.clusterBytes_pos {s : System} (h : Mounted s) :
    0 < s.fat32.fs.clusterBytes := by
  have hone := h.one_le
  rw [Fs.clusterBytes]
  omega

theorem Mounted.skip {s : System} (h : Mounted s) (n : Nat) : Mounted (s.skip n) :=
  ⟨h.initialized, h.one_le, h.le_eight⟩

/-! ## Looking a name up -/

/-- The lookup of a name that is found reads, and leaves the rest alone. -/
theorem findEntry_some (name : Name) : ∀ (cluster : Nat) (s : System)
    (found : Option Located) (t : System),
    findEntry cluster name s = some (found, t) →
    0 < s.fat32.fs.sectorsPerCluster → found.isSome →
    Live cluster ∧ ∃ n, t = s.skip n := by
  refine findEntry.fixpoint_induct name (fun f => ∀ (cluster : Nat) (s : System)
    (found : Option Located) (t : System), f cluster s = some (found, t) →
    0 < s.fat32.fs.sectorsPerCluster → found.isSome →
    Live cluster ∧ ∃ n, t = s.skip n) ?limit ?step
  case limit =>
    intro c hchain hc cluster s found t hrun
    obtain ⟨f, hf, hrun⟩ := exists_run_of_sup _ hrun
    exact hc f hf cluster s found t hrun
  case step =>
    intro f ih cluster s found t hrun hsize hsome
    beta_reduce at hrun
    by_cases hlive : Live cluster
    · rw [if_pos hlive] at hrun
      refine ⟨hlive, ?_⟩
      obtain ⟨read, middle, hread, hrest⟩ := Program.exists_of_bind hrun
      cases read with
      | none =>
          obtain ⟨rfl, rfl⟩ := Prod.mk.inj (Option.some.inj hrest)
          simp at hsome
      | some buf =>
          obtain ⟨hs, -, rfl⟩ := readCluster_some hsize hread
          obtain ⟨fs, same, hfs, hrest⟩ := Program.exists_of_bind hrest
          obtain ⟨rfl, rfl⟩ := Prod.mk.inj (Option.some.inj hfs)
          generalize findIn name buf _ 0 = scan at hrest
          cases scan with
          | found i =>
              obtain ⟨rfl, rfl⟩ := Prod.mk.inj (Option.some.inj hrest)
              exact ⟨_, rfl⟩
          | stop =>
              obtain ⟨rfl, rfl⟩ := Prod.mk.inj (Option.some.inj hrest)
              simp at hsome
          | more =>
              obtain ⟨next, middle, hnext, hrest⟩ := Program.exists_of_bind hrest
              rw [getNextCluster_present ((System.skip_present _ _).mpr hs)]
                at hnext
              split at hnext
              · obtain ⟨rfl, rfl⟩ := Prod.mk.inj (Option.some.inj hnext)
                exact absurd (ih _ _ _ _ hrest hsize hsome).1 eoc_not_live
              · obtain ⟨rfl, rfl⟩ := Prod.mk.inj (Option.some.inj hnext)
                obtain ⟨-, n, rfl⟩ := ih _ _ _ _ hrest hsize hsome
                exact ⟨_, by rw [System.skip_skip, System.skip_skip]⟩
    · rw [if_neg hlive] at hrun
      obtain ⟨rfl, rfl⟩ := Prod.mk.inj (Option.some.inj hrun)
      simp at hsome

/-! ## The loop -/

def chainData (s : System) (cluster : Nat) : Buf := fun k =>
  clusterData s ((linkOf s)^[k / s.fat32.fs.clusterBytes] cluster)
    (k % s.fat32.fs.clusterBytes)

/-- The buffer after `count` clusters of a chain were copied. -/
def chainCopy (s : System) (cluster count total offset : Nat) (out : Buf) : Buf :=
  copyPieces s.fat32.fs.clusterBytes
    (fun j => clusterData s ((linkOf s)^[j] cluster)) count total offset out

theorem readChain_stop {s : System} {cluster remaining offset : Nat} {out : Buf}
    (hstop : ¬ (Live cluster ∧ remaining > 0)) :
    readChain cluster remaining offset out s = some ((true, out), s) := by
  rw [readChain, if_neg hstop]
  rfl

theorem chainCopy_next {s : System} {n cluster next remaining count : Nat}
    (h : Visits s n next remaining count)
    (hnext : Live next → next = linkOf s cluster) (total offset : Nat) (out : Buf) :
    chainCopy s next count total offset out =
      copyPieces s.fat32.fs.clusterBytes
        (fun j => clusterData s ((linkOf s)^[j + 1] cluster)) count total offset
        out :=
  copyPieces_congr (fun j hj => by rw [h.iterate_next hnext hj]) _ _ _

/--
A loop that ends well copies the clusters it visits, and would do so into any
buffer.
-/
theorem readChain_ok {s u s' : System} (hmounted : Mounted s)
    {n cluster remaining offset : Nat} {out out' : Buf}
    (hu : Live cluster → u = s.skip n)
    (h : readChain cluster remaining offset out u = some ((true, out'), s')) :
    ∃ count, Visits s n cluster remaining count ∧
      ∀ dest, readChain cluster remaining offset dest u =
        some ((true, chainCopy s cluster count remaining offset dest), s') := by
  have hbytes := hmounted.clusterBytes_pos
  induction remaining using Nat.strong_induction_on
      generalizing n cluster offset out u with
  | h remaining ih =>
      by_cases hmore : Live cluster ∧ remaining > 0
      · obtain rfl := hu hmore.1
        rw [readChain, if_pos hmore] at h
        obtain ⟨read, middle, hread, h⟩ := Program.exists_of_bind h
        cases read with
        | none =>
            obtain ⟨-, middle, -, h⟩ := Program.exists_of_bind h
            simp at h
        | some buf =>
            obtain ⟨hs, rfl, rfl⟩ := readCluster_skip hmounted.one_le hread
            obtain ⟨fs, middle, hfs, h⟩ := Program.exists_of_bind h
            obtain ⟨rfl, rfl⟩ := Prod.mk.inj (Option.some.inj hfs)
            obtain ⟨next, middle, hnext, h⟩ := Program.exists_of_bind h
            obtain ⟨hat, hlink⟩ := getNextCluster_nextAt hs hnext
            obtain ⟨count, hvisits, hall⟩ :=
              ih (remaining - min remaining s.fat32.fs.clusterBytes) (by omega)
                (fun hlive => (hlink hlive).2) h
            refine ⟨count + 1, .step hmore.1 hmore.2 ?_, fun dest => ?_⟩
            · rw [← hat]
              exact hvisits
            · rw [readChain, if_pos hmore, Program.bind_of_some hread, chainCopy,
                copyPieces_succ hbytes,
                ← chainCopy_next hvisits fun hlive => (hlink hlive).1]
              refine (Program.bind_of_some hfs).trans ?_
              exact (Program.bind_of_some hnext).trans (hall _)
      · rw [readChain_stop hmore] at h
        obtain ⟨-, rfl⟩ := Prod.mk.inj (Option.some.inj h)
        refine ⟨0, .stop hmore, fun dest => ?_⟩
        rw [readChain_stop hmore, chainCopy, copyPieces_none]

/-! ## The call -/

/-- Byte `k` on disk of the file whose chain starts at `first`. -/
structure ChainByte (s : System) (first k : Nat) (byte : UInt8) : Prop where
  live : ∀ j ≤ k / s.fat32.fs.clusterBytes, Live ((linkOf s)^[j] first)
  stored : byte = chainData s first k

theorem Visits.chainByte {s : System} {n first remaining count k : Nat}
    (h : Visits s n first remaining count)
    (hk : k < count * s.fat32.fs.clusterBytes) :
    ChainByte s first k (chainData s first k) := by
  have hindex : k / s.fat32.fs.clusterBytes < count :=
    Nat.div_lt_of_lt_mul (by rwa [Nat.mul_comm])
  exact ⟨fun j hj => h.live (lt_of_le_of_lt hj hindex), rfl⟩

/--
Whatever was in the caller's buffer, a call that returns 0 fills the bytes it
counts from the chain at `first`.
-/
def ReadsTruthfully (s : System) (parent : Nat) (filename : List UInt8)
    (maxSize first : Nat) : Prop :=
  ∀ (out : Buf) (bytesRead : Nat) (r : ReadResult) (s' : System),
    readFileIn parent filename out maxSize bytesRead s = some (r, s') →
    r.status = 0 → ∀ k < r.bytesRead, ChainByte s first k (r.out k)

section Call

variable {s t : System} {parent maxSize : Nat} {filename : List UInt8}
  {found : Located}

theorem readFileIn_found_apply (hmounted : Mounted s)
    (hfound : findEntry parent (nameToFat filename) s = some (some found, t))
    (out : Buf) (bytesRead : Nat) :
    readFileIn parent filename out maxSize bytesRead s =
      (readChain found.entry.firstCluster
        (min found.entry.fileSize.toNat maxSize) 0 out t).map fun r =>
          (if r.1.1 then
              ⟨0, r.1.2, min found.entry.fileSize.toNat maxSize⟩
            else ⟨-1, r.1.2, bytesRead⟩, r.2) := by
  unfold readFileIn
  rw [Program.bind_of_some (getFs_apply s), hmounted.initialized]
  change (findEntry parent (nameToFat filename) >>= _) s = _
  rw [Program.bind_of_some hfound]
  change (readChain found.entry.firstCluster
    (min found.entry.fileSize.toNat maxSize) 0 out >>= _) t = _
  rw [Program.bind_apply]
  cases readChain found.entry.firstCluster
      (min found.entry.fileSize.toNat maxSize) 0 out t with
  | none => rfl
  | some r =>
      obtain ⟨⟨ok, read⟩, u⟩ := r
      cases ok with
      | false => rfl
      | true => rfl

/--
`fat32_read_file_in` tells the truth when it succeeds if and only if the chain,
as the driver can follow it, holds the bytes that are asked for.
-/
theorem readFileIn_truthful_iff (hmounted : Mounted s)
    (hfound : findEntry parent (nameToFat filename) s = some (some found, t))
    {out : Buf} {bytesRead : Nat} {r : ReadResult} {s' : System}
    (hrun : readFileIn parent filename out maxSize bytesRead s = some (r, s'))
    (hok : r.status = 0) :
    ReadsTruthfully s parent filename maxSize found.entry.firstCluster ↔
      Covers t 0 found.entry.firstCluster
        (min found.entry.fileSize.toNat maxSize) := by
  obtain ⟨-, n, rfl⟩ := findEntry_some _ _ _ _ _ hfound hmounted.one_le rfl
  have hreads := @readFileIn_found_apply s _ parent maxSize filename found
    hmounted hfound
  -- the run that is given shows which clusters are visited
  rw [hreads] at hrun
  obtain ⟨⟨⟨ok, copied⟩, u⟩, hchain, hresult⟩ := Option.map_eq_some_iff.mp hrun
  obtain ⟨rfl, rfl⟩ := Prod.mk.inj hresult
  cases ok with
  | false => simp at hok
  | true =>
      obtain ⟨count, hvisits, hall⟩ :=
        readChain_ok (u := s.skip n) (n := 0) (hmounted.skip n)
          (fun _ => rfl) hchain
      rw [← hvisits.covers_iff]
      constructor
      · intro htruthful
        by_contra hshort
        -- the first byte behind the clusters stays as it was
        have hleft : ∀ byte : UInt8, byte = chainData s found.entry.firstCluster
            (count * s.fat32.fs.clusterBytes) := by
          intro byte
          have hbyte := htruthful (fun _ => byte) 0 _ u
            (by rw [hreads, hall]; rfl) rfl (count * s.fat32.fs.clusterBytes)
            (not_le.mp hshort)
          have hkept : chainCopy (s.skip n) found.entry.firstCluster count
              (min found.entry.fileSize.toNat maxSize) 0 (fun _ => byte)
              (count * s.fat32.fs.clusterBytes) = byte := by
            rw [chainCopy, copyPieces, if_neg]
            simp only [System.skip_fat32]
            omega
          exact hkept.symm.trans hbyte.stored
        exact absurd ((hleft 0).trans (hleft 1).symm) (by decide)
      · intro hcovered dest counted r s' hrun hok k hk
        rw [hreads, hall] at hrun
        obtain ⟨rfl, rfl⟩ := Prod.mk.inj (Option.some.inj hrun)
        change k < min found.entry.fileSize.toNat maxSize at hk
        have hcopied : chainCopy (s.skip n) found.entry.firstCluster count
            (min found.entry.fileSize.toNat maxSize) 0 dest k =
            chainData s found.entry.firstCluster k := by
          rw [chainCopy, copyPieces, if_pos]
          · rfl
          · omega
        change ChainByte s _ k (chainCopy _ _ _ _ _ _ k)
        have hbyte := hvisits.chainByte (lt_of_lt_of_le hk hcovered)
        rw [hcopied]
        exact ⟨hbyte.live, hbyte.stored⟩

end Call

/-! ## A disk with one entry -/

/-- A formatted volume of 100 sectors with this entry in its root directory. -/
def diskWithEntry (entry : DirEntry) (lba : Nat) : Sector :=
  if lba = 0 then bootSector 100 none
  else if lba = 1 then newInfoSector 100
  else if lba = 32 then firstFatSector
  else if lba = 34 then Sector.ofBuf (setEntry (fun _ => 0) 0 entry)
  else Sector.zero

theorem exists_mounted_with_entry (entry : DirEntry) :
    ∃ s, init (.startup (diskWithEntry entry)) = some (0, s) ∧ Mounted s ∧
      ∃ v, Represents s v ∧ v.entry (2, 0) = entry ∧
        v.fs = formattedFs 100 ∧ v.link 2 = 0x0FFFFFFF := by
  have h : Formattable 100 := by decide
  have hstart := System.startup_faultFree (diskWithEntry entry)
  obtain ⟨s, hinit, hs⟩ := init_moves
    (partitionOf (.startup (diskWithEntry entry))) h.fits.lt none rfl rfl _
    ⟨hstart, rfl, fun _ _ => rfl⟩
  have hlayout := formattedFs_layout h
  have hfs : s.fat32.fs = formattedFs 100 := by
    rw [hs.statics]
    rfl
  have hmounted : Mounted s := by
    constructor
    · rw [hfs]
      rfl
    · rw [hfs]
      decide
    · rw [hfs]
      decide
  have hrange : (formattedFs 100).InRange 2 := by decide
  refine ⟨s, hinit, hmounted, _, ⟨_, hs, Partition.holds_iff.mpr ⟨hlayout, rfl⟩⟩,
    ?_, rfl, firstFat_link (by decide) (by decide)⟩
  rw [Volume.entry, entryAt, ← entry.ofBytes_toBytes]
  refine DirEntry.ofBytes_congr fun k hk => ?_
  rw [entry.ofBytes_toBytes]
  have hsector : 34 + k / 512 = 34 := by omega
  change (if (formattedFs 100).InRange 2 then Partition.data _ 2
    else fun _ => 0) (32 * 0 + k) = _
  rw [if_pos hrange, Nat.mul_zero, Nat.zero_add, Partition.data, if_pos (by omega)]
  change (diskWithEntry entry (u64 (0 + (34 + k / 512)))).toBuf (k % 512) = _
  rw [hsector, Nat.mod_eq_of_lt (by omega : k < 512)]
  change (Sector.ofBuf (setEntry (fun _ => 0) 0 entry)).toBuf k = _
  rw [Sector.toBuf_ofBuf _ (by omega), setEntry, if_pos (by omega), Nat.mul_zero,
    Nat.sub_zero]

/-- The only name of the root directory is found at its place. -/
theorem Represents.find_only {s : System} {v : Volume} (hs : Represents s v)
    (hrange : v.fs.InRange 2) (hlink : v.link 2 = 0x0FFFFFFF) {entry : DirEntry}
    (hentry : v.entry (2, 0) = entry) (hname : entry.name = nameToFat roundFile)
    (hattr : ¬ entry.HasAttr attrVolumeId) :
    ∃ t, findEntry 2 (nameToFat roundFile) s = some (some ⟨entry, 2, 0⟩, t) ∧
      Represents t v := by
  have hwalk : Walk v.link Live 2 [2] 0x0FFFFFFF :=
    .step (by decide) (by rw [hlink]; exact .stop (by decide))
  have hlookup : v.lookup (nameToFat roundFile) (places [2]) = some (2, 0) := by
    obtain ⟨hend, hdeleted, -⟩ := nameToFat_ordinary roundFile_ascii
    rw [← hname] at hend hdeleted
    have hplaces : places [2] = (2, 0) :: placesFrom 2 1 127 := rfl
    rw [hplaces, Volume.lookup, hentry]
    exact (if_neg hend).trans ((if_neg hdeleted).trans
      ((if_neg hattr).trans (if_pos hname)))
  obtain ⟨t, hrun, ht⟩ := findEntry_executes hs.layout hwalk
    (by simpa using hrange) (nameToFat roundFile) s hs
  rw [hlookup] at hrun
  refine ⟨t, ?_, ht⟩
  rw [hrun, Option.map_some, Volume.locate, hentry]

/-- A file of one byte, in the cluster of the root or in none. -/
def oddEntry (cluster : Nat) : DirEntry :=
  .make (nameToFat roundFile) attrArchive cluster 1

theorem exists_odd_file {cluster : Nat} (hcluster : cluster = 0 ∨ cluster = 2) :
    ∃ s t v l last,
      init (.startup (diskWithEntry (oddEntry cluster))) = some (0, s) ∧
      Mounted s ∧
      findEntry 2 (nameToFat roundFile) s =
        some (some ⟨oddEntry cluster, 2, 0⟩, t) ∧
      Represents t v ∧
      Walk v.link Live (oddEntry cluster).firstCluster l last ∧
      ∀ c ∈ l, v.fs.InRange c := by
  obtain ⟨s, hinit, hmounted, v, hs, hentry, hfs, hlink⟩ :=
    exists_mounted_with_entry (oddEntry cluster)
  have hrange : v.fs.InRange 2 := by
    rw [hfs]
    decide
  obtain ⟨t, hfind, ht⟩ := hs.find_only hrange hlink hentry rfl
    (fun h => absurd h (by decide : ¬ attrArchive &&& attrVolumeId ≠ 0))
  have hfirst : (oddEntry cluster).firstCluster = cluster :=
    DirEntry.make_firstCluster _ _ _ (by omega)
  rw [hfirst]
  rcases hcluster with rfl | rfl
  · exact ⟨s, t, v, [], 0, hinit, hmounted, hfind, ht, .stop (by decide), by simp⟩
  · exact ⟨s, t, v, [2], _, hinit, hmounted, hfind, ht,
      .step (by decide) (by rw [hlink]; exact .stop (by decide)), by simpa using hrange⟩

theorem exists_odd_read {cluster : Nat} (hcluster : cluster = 0 ∨ cluster = 2) :
    ∃ s t s' r, init (.startup (diskWithEntry (oddEntry cluster))) = some (0, s) ∧
      Mounted s ∧
      findEntry 2 (nameToFat roundFile) s =
        some (some ⟨oddEntry cluster, 2, 0⟩, t) ∧
      readFileIn 2 roundFile (fun _ => 0) 1 0 s = some (r, s') ∧
      r.status = 0 ∧ r.bytesRead = 1 := by
  obtain ⟨s, t, v, l, last, hinit, hmounted, hfind, ht, hwalk, hrange⟩ :=
    exists_odd_file hcluster
  obtain ⟨s', hread, -⟩ := readChain_executes ht.layout hwalk hrange
    (min (oddEntry cluster).fileSize.toNat 1) 0 (fun _ => 0) t ht
  refine ⟨s, t, s', ⟨0, v.gather l (min (oddEntry cluster).fileSize.toNat 1) 0
    fun _ => 0, min (oddEntry cluster).fileSize.toNat 1⟩, hinit, hmounted, hfind,
    ?_, rfl, rfl⟩
  rw [readFileIn_found_apply hmounted hfind]
  dsimp only
  rw [hread]
  rfl

theorem readFileIn_truthful_of_root_cluster :
    ∃ s t s' r, ∃ found : Located,
      readFileIn 2 roundFile (fun _ => 0) 1 0 s = some (r, s') ∧
      r.bytesRead = 1 ∧
      (ReadsTruthfully s 2 roundFile 1 found.entry.firstCluster ↔
        Covers t 0 found.entry.firstCluster
          (min found.entry.fileSize.toNat 1)) := by
  obtain ⟨s, t, s', r, -, hmounted, hfind, hrun, hok, hcount⟩ :=
    exists_odd_read (.inr rfl)
  exact ⟨s, t, s', r, _, hrun, hcount,
    readFileIn_truthful_iff hmounted hfind hrun hok⟩

/-- A file of one byte that has no cluster is read without a single byte. -/
theorem byte_counted_but_not_read :
    ¬ ∀ (start s t s' : System) (parent maxSize bytesRead : Nat)
      (filename : List UInt8) (found : Located) (out : Buf) (r : ReadResult),
      init start = some (0, s) → Mounted s →
      findEntry parent (nameToFat filename) s = some (some found, t) →
      readFileIn parent filename out maxSize bytesRead s = some (r, s') →
      r.status = 0 → ∀ k < r.bytesRead,
        ChainByte s found.entry.firstCluster k (r.out k) := by
  intro hclaim
  obtain ⟨s, t, s', r, hinit, hmounted, hfind, hrun, hok, hcount⟩ :=
    exists_odd_read (.inl rfl)
  have hbyte := hclaim _ s t s' 2 1 0 roundFile _ _ r hinit hmounted hfind hrun hok
    0 (by rw [hcount]; decide)
  have hlive : Live (oddEntry 0).firstCluster := hbyte.live 0 (Nat.zero_le _)
  exact absurd hlive (by decide)

end EntropyOS.Fat32
