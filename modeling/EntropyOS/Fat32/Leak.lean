import EntropyOS.Fat32.Accounting

/-!
# Runs that lose clusters

`fat32_delete_file` takes a directory for a file: it frees the clusters of the
directory and leaves what was stored in it allocated.  Repeating three calls
therefore uses up the low cluster numbers while the root directory stays
empty.
-/

namespace EntropyOS.Fat32

open EntropyOS.Foundation

/-- A volume that a session with these parameters reaches. -/
def Reaches (total : UInt64) (label : Option (List UInt8))
    (ok : Volume → Call → Prop) (v : Volume) : Prop :=
  ∃ s, Session total label ok s ∧ Represents s v

theorem Reaches.call {total : UInt64} {label : Option (List UInt8)}
    {ok : Volume → Call → Prop} {v v' : Volume} {c : Call}
    (h : Reaches total label ok v) (hproper : c.Proper v) (hok : ok v c)
    (hexec : Executes v c.run 0 v') : Reaches total label ok v' := by
  obtain ⟨s, hs, hrep⟩ := h
  obtain ⟨-, -, heq⟩ := represents_iff.mp hrep
  obtain ⟨s', hrun, hrep'⟩ := hexec s hrep
  rw [← heq] at hproper hok
  exact ⟨s', .call hs hproper hok hrun, hrep'⟩

theorem exists_reaches_fresh {total : UInt64} (h : Formattable total.toNat)
    (label : Option (List UInt8)) (ok : Volume → Call → Prop) :
    ∃ v, Reaches total label ok v ∧ v.fs.Layout ∧
      v.Fresh (formatFatSize total.toNat) (formatClusters total.toNat) := by
  have hstart := System.startup_faultFree fun _ => Sector.zero
  obtain ⟨s, s', hformat, hinit, hrep, hfresh⟩ := mount_executes hstart h label
  exact ⟨_, ⟨s', .mount hstart hformat hinit, hrep⟩, hrep.layout, hfresh⟩

/-- Free clusters, once their numbers are known, make up the free list. -/
theorem Volume.freeList_eq_of_mem {v : Volume} {l : List Nat}
    (hsorted : l.Pairwise (· < ·))
    (hmem : ∀ c, c ∈ l ↔ v.fs.InRange c ∧ v.link c = free) : v.freeList = l := by
  apply v.freeList_sorted.eq_of_mem_iff hsorted
  intro c
  rw [Volume.mem_freeList, hmem]

/--
The root directory is empty, and of the clusters above it all but the first
`lost` ones from 4 on are free.
-/
structure Volume.Leaked (v : Volume) (clusters lost : Nat) : Prop where
  layout : v.fs.Layout
  reserved : 8 ≤ v.fs.fatBeginLba
  rootCluster : v.fs.rootDirCluster = 2
  totalClusters : v.fs.totalClusters = clusters
  regular : v.Regular
  counted : v.Counted
  unused : ∀ q ∈ places [2], ¬ (v.entry q).InUse
  free : v.freeList = 3 :: List.range' (4 + lost) (clusters - 2 - lost)

theorem Volume.Fresh.leaked {v : Volume} {fatSize clusters : Nat}
    (h : v.Fresh fatSize clusters) (hlayout : v.fs.Layout)
    (hclusters : 2 ≤ clusters) : v.Leaked clusters 0 := by
  constructor
  case layout => exact hlayout
  case reserved => exact h.reserved
  case rootCluster | totalClusters =>
    rw [h.fs]
    rfl
  case regular => exact h.regular (by omega)
  case counted => exact h.counted (by omega)
  case unused => exact fun q hq huse => huse.1 (h.entry_isEnd hq)
  case free =>
    rw [h.freeList_eq (by omega)]
    obtain ⟨count, rfl⟩ := Nat.exists_eq_add_of_le' hclusters
    rfl

namespace Volume.Leaked

variable {v : Volume} {clusters lost : Nat}

theorem infoApart (h : v.Leaked clusters lost) : v.InfoApart :=
  Volume.infoApart_of_reserved h.layout h.reserved

theorem directory (h : v.Leaked clusters lost) : v.Directory 2 [2] := by
  have hchain := h.regular.chain_singleton .root trivial
  rw [Volume.first, h.rootCluster] at hchain
  exact ⟨⟨.root, .root, trivial, h.rootCluster⟩, hchain⟩

theorem small (h : v.Leaked clusters lost) : clusters < 4294967295 := by
  have hend := h.layout.clustersEnd
  rw [h.totalClusters] at hend
  omega

theorem reach_iff (h : v.Leaked clusters lost) {n : Node} :
    v.Reach n ↔ n = .root := by
  constructor
  · intro hn
    induction hn with
    | root => rfl
    | child _ hchild ih =>
        subst ih
        obtain ⟨l, hl, hp⟩ := hchild.mem
        rw [Volume.first, h.rootCluster] at hl
        obtain rfl := hl.unique h.directory.chain
        exact absurd hchild.inUse (h.unused _ hp)
  · rintro rfl
    exact .root

end Volume.Leaked

/-! ## One round -/

def roundDirectory : List UInt8 := [0x41]

def roundFile : List UInt8 := [0x58]

theorem roundDirectory_ascii : Ascii roundDirectory := by
  simp [Ascii, roundDirectory]

theorem roundFile_ascii : Ascii roundFile := by
  simp [Ascii, roundFile]

/-- The one entry of the root is the directory of the round, in cluster 3. -/
structure Volume.Opened (v : Volume) (p : Place) (clusters lost : Nat) :
    Prop where
  layout : v.fs.Layout
  reserved : 8 ≤ v.fs.fatBeginLba
  rootCluster : v.fs.rootDirCluster = 2
  totalClusters : v.fs.totalClusters = clusters
  regular : v.Regular
  counted : v.Counted
  mem : p ∈ places [2]
  entry : v.entry p = .make (nameToFat roundDirectory) attrDirectory 3 0
  others : ∀ q ∈ places [2], q ≠ p → ¬ (v.entry q).InUse
  free : v.freeList = List.range' (4 + lost) (clusters - 2 - lost)

theorem Volume.Leaked.create {v : Volume} {clusters lost : Nat}
    (h : v.Leaked clusters lost) :
    ∃ v' p, Executes v (createDirectoryIn 2 roundDirectory) 0 v' ∧
      v'.Opened p clusters lost ∧
      (∀ q ∈ places [3], (v'.entry q).InUse → (v'.entry q).IsDot) ∧
      ¬ (v'.entry (3, 2)).InUse := by
  have hwf := h.regular.wellFormed
  have hdir := h.directory
  rcases createDirectoryIn_cases roundDirectory h.infoApart h.layout hwf hdir with
    ⟨hfail, -⟩ | ⟨p, c, rest, htarget, hunused, hfree, hexec⟩
  · rcases hfail with ⟨q, hq, huse, -⟩ | hall | hnone
    · exact absurd huse (h.unused q hq)
    · have hq : ((2, 0) : Place) ∈ places [2] := by simp [mem_places]
      exact absurd (hall _ hq) (h.unused _ hq)
    · simp [h.free] at hnone
  · obtain ⟨rfl, rfl⟩ : 3 = c ∧
        List.range' (4 + lost) (clusters - 2 - lost) = rest := by
      simpa [h.free] using hfree
    have hroot : v.first .root = 2 := h.rootCluster
    have hchain : v.Chain (v.first .root) [2] := by
      rw [hroot]
      exact hdir.chain
    have houtcome : Outcome v (.createDirectoryIn (v.first .root) roundDirectory)
        (v.created p 3 (v.first .root) (nameToFat roundDirectory)) :=
      .created .root trivial hchain roundDirectory_ascii htarget hunused hfree
        (by decide)
    rw [hroot] at houtcome
    have hp := mem_places.mp htarget.mem
    have hpc : p.1 ≠ 3 := by
      rw [List.mem_singleton.mp hp.1]
      decide
    have hinside : ∀ i < 128,
        (v.created p 3 2 (nameToFat roundDirectory)).entry (3, i) =
          entryAt (dotEntries 3 (if 2 = v.fs.rootDirCluster then 0 else 2)) i := by
      intro i hi
      rw [Volume.created_entry hi, if_neg (fun heq => hpc (by rw [← heq])),
        if_neg (Ne.symm hpc), if_pos rfl]
    refine ⟨_, p, hexec, ?_, ?_, ?_⟩
    · constructor
      case layout => simpa [Volume.created] using h.layout
      case reserved => simpa [Volume.created] using h.reserved
      case rootCluster => simpa [Volume.created] using h.rootCluster
      case totalClusters => simpa [Volume.created] using h.totalClusters
      case regular => exact houtcome.regular h.regular
      case counted =>
        refine houtcome.counted ?_ h.counted
        rw [h.totalClusters]
        exact h.small
      case mem => exact htarget.mem
      case entry => rw [Volume.created_entry hp.2, if_pos rfl]
      case others =>
        intro q hq hne
        obtain ⟨hq1, hq2⟩ := mem_places.mp hq
        have hsame : q.1 = p.1 := by
          rw [List.mem_singleton.mp hq1, List.mem_singleton.mp hp.1]
        rw [Volume.created_entry hq2, if_neg hne, if_pos hsame]
        exact h.unused q hq
      case free =>
        refine (Volume.freeList_congr (v := v.take 3) ?_ ?_).trans
          (Volume.freeList_take hfree)
        · simp [Volume.created]
        · simp [Volume.created]
    · exact fun q hq huse => Volume.new_isDot hinside hq huse
    · rw [hinside 2 (by decide)]
      exact fun huse => huse.1 (dotEntries_isEnd _ _ le_rfl)

/-- A new file takes its clusters from the free list. -/
theorem Volume.written_freeList {v : Volume} {p : Place} {name : Name}
    {data : List UInt8} {rest : List Nat}
    (hsplit : v.freeList = v.taken [] data.length ++ rest)
    (hlow : ∀ c ∈ v.taken [] data.length, c < 268435456) :
    (v.written p [] name data).freeList = rest := by
  refine (Volume.freeList_congr (v := v.fill (v.taken [] data.length) data 0)
    ?_ ?_).trans (Volume.fill_freeList hsplit (.inl rfl) hlow)
  · simp
  · simp only [Volume.written, Volume.finish_link, Volume.setData_link]
    rfl

namespace Volume.Opened

variable {v : Volume} {p : Place} {clusters lost : Nat}

theorem infoApart (h : v.Opened p clusters lost) : v.InfoApart :=
  Volume.infoApart_of_reserved h.layout h.reserved

theorem chain_root (h : v.Opened p clusters lost) :
    v.Chain (v.first .root) [2] := by
  have hchain := h.regular.chain_singleton .root trivial
  rwa [show v.first .root = 2 from h.rootCluster] at hchain ⊢

theorem first_eq (h : v.Opened p clusters lost) :
    v.first (.entry p) = 3 := by
  rw [Volume.first, h.entry]
  exact DirEntry.make_firstCluster _ _ _ (by decide)

theorem isDir (h : v.Opened p clusters lost) : v.IsDir (.entry p) := by
  rw [Volume.IsDir, h.entry]
  exact Volume.make_directory_isDir _ _ _

theorem inUse (h : v.Opened p clusters lost) : (v.entry p).InUse := by
  rw [h.entry]
  exact make_inUse roundDirectory_ascii _ _ _

theorem reach (h : v.Opened p clusters lost) : v.Reach (.entry p) := by
  refine .child .root ⟨trivial, ⟨[2], h.chain_root, h.mem⟩, h.inUse, ?_⟩
  rw [h.entry]
  exact make_not_isDot _ _ _ _

theorem chain (h : v.Opened p clusters lost) : v.Chain (v.first (.entry p)) [3] := by
  have hchain := h.regular.chain_singleton h.reach h.isDir
  rwa [h.first_eq] at hchain ⊢

theorem directory (h : v.Opened p clusters lost) : v.Directory 3 [3] := by
  refine ⟨⟨.entry p, h.reach, h.isDir, h.first_eq⟩, ?_⟩
  have hchain := h.chain
  rwa [h.first_eq] at hchain

theorem small (h : v.Opened p clusters lost) : clusters < 4294967295 := by
  have hend := h.layout.clustersEnd
  rw [h.totalClusters] at hend
  omega

/-- The root keeps its one entry while something changes below it. -/
private theorem keep_root (h : v.Opened p clusters lost) {v' : Volume}
    {n : Node} {l old new : List Nat} {r q : Place}
    (hchange : v.Change v' n l r old new) (hr : r.1 = 3) (hq : q ∈ places [2]) :
    v'.entry q = v.entry q := by
  refine hchange.entry_apart h.regular.wellFormed .root h.chain_root hq ?_
  rintro rfl
  have htwo := List.mem_singleton.mp (mem_places.mp hq).1
  omega

theorem write (h : v.Opened p clusters lost)
    (hdots : ∀ q ∈ places [3], (v.entry q).InUse → (v.entry q).IsDot)
    (hslot : ¬ (v.entry (3, 2)).InUse) {data : List UInt8}
    (hsize : data.length < 4294967296)
    (hroom : clustersFor data.length ≤ clusters - 2 - lost)
    (hlow : 4 + lost + clustersFor data.length ≤ eoc) :
    ∃ v', Executes v (writeFileIn 3 roundFile data) 0 v' ∧
      v'.Opened p clusters (lost + clustersFor data.length) ∧
      ∃ r ∈ places [3], (v'.entry r).InUse ∧ ¬ (v'.entry r).IsDot := by
  have hwf := h.regular.wellFormed
  have hdir := h.directory
  rcases writeFileIn_cases roundFile h.layout hwf hdir with
    ⟨hfull, -⟩ | ⟨r, old, htarget, hexec, -⟩
  · have hmem : ((3, 2) : Place) ∈ places [3] := by simp [mem_places]
    exact absurd (hfull _ hmem).1 hslot
  · have hold : old = [] := by
      cases htarget with
      | existing hr huse hname =>
          exact absurd (hdots r hr huse) (not_isDot_of_name hname)
      | free => rfl
    subst hold
    have htaken : v.taken [] data.length =
        List.range' (4 + lost) (clustersFor data.length) := by
      have hrelease : v.release [] = v := rfl
      rw [Volume.taken, hrelease, h.free,
        List.take_range'_of_length_ge hroom]
    have hbelow : ∀ c ∈ v.taken [] data.length, c < eoc := by
      intro c hc
      rw [htaken, List.mem_range'_1] at hc
      omega
    have hlength : (v.taken [] data.length).length = clustersFor data.length := by
      rw [htaken, List.length_range']
    have hr : r.1 = 3 := List.mem_singleton.mp (mem_places.mp htarget.mem).1
    have hchange := Volume.written_change hwf h.reach h.isDir h.chain
      roundFile_ascii htarget hbelow
    have houtcome : Outcome v (.writeFileIn (v.first (.entry p)) roundFile data)
        (v.written r [] (nameToFat roundFile) data) :=
      .written h.reach h.isDir h.chain roundFile_ascii hsize htarget hbelow hlength
    have hwritten := (hexec data (fun c hc => (hbelow c
      (List.mem_of_mem_dropLast hc)).trans (by decide)) hlength).2 h.infoApart
    refine ⟨_, hwritten, ?_, r, htarget.mem, ?stored⟩
    case stored =>
      rw [Volume.written_entry _ _ _ _ _ (mem_places.mp htarget.mem).2, if_pos rfl]
      exact ⟨make_inUse roundFile_ascii _ _ _, make_not_isDot _ _ _ _⟩
    constructor
    case layout => simpa using h.layout
    case reserved => simpa using h.reserved
    case rootCluster => simpa using h.rootCluster
    case totalClusters => simpa using h.totalClusters
    case regular => exact houtcome.regular h.regular
    case counted =>
      refine houtcome.counted ?_ h.counted
      rw [h.totalClusters]
      exact h.small
    case mem => exact h.mem
    case entry =>
      rw [h.keep_root hchange hr h.mem]
      exact h.entry
    case others =>
      intro q hq hne
      rw [h.keep_root hchange hr hq]
      exact h.others q hq hne
    case free =>
      have hsplit : v.freeList = v.taken [] data.length ++
          List.range' (4 + (lost + clustersFor data.length))
            (clusters - 2 - (lost + clustersFor data.length)) := by
        rw [htaken, h.free, ← Nat.add_assoc, List.range'_append_1]
        congr 1
        omega
      exact Volume.written_freeList hsplit fun c hc => (hbelow c hc).trans (by decide)

theorem delete (h : v.Opened p clusters lost) :
    ∃ v', Executes v (deleteFile roundDirectory) 0 v' ∧
      v'.Leaked clusters lost := by
  have hwf := h.regular.wellFormed
  have hdir : v.Directory v.fs.rootDirCluster [2] :=
    ⟨⟨.root, .root, trivial, rfl⟩, h.chain_root⟩
  have hnamed : v.Named (nameToFat roundDirectory) p := by
    refine ⟨h.inUse, ?_, ?_⟩
    · rw [h.entry]
      simp [DirEntry.HasAttr, DirEntry.make]
      decide
    · rw [h.entry]
      rfl
  rcases deleteFile_cases roundDirectory h.infoApart h.layout hwf hdir with
    ⟨hnone, -⟩ | ⟨r, old, hr, hnamed', hold, hexec⟩
  · exact absurd hnamed (hnone p h.mem)
  · obtain rfl : r = p :=
      (hdir.orderly hwf).unique r hr p h.mem hnamed'.1 hnamed.1
        (hnamed'.2.2.trans hnamed.2.2.symm)
    obtain rfl : old = [3] := hold.unique h.chain
    have hdot := not_isDot_of_name hnamed.2.2
    have hchange := Volume.removed_change .root trivial h.chain_root hr hnamed.1
      hdot hold
    have houtcome : Outcome v (.deleteFile roundDirectory) (v.removed r [3]) :=
      .fileRemoved h.chain_root hr hnamed hdot hold
    refine ⟨_, hexec, ?_⟩
    constructor
    case layout => simpa [Volume.removed] using h.layout
    case reserved => simpa [Volume.removed] using h.reserved
    case rootCluster => simpa [Volume.removed] using h.rootCluster
    case totalClusters => simpa [Volume.removed] using h.totalClusters
    case regular => exact houtcome.regular h.regular
    case counted =>
      refine houtcome.counted ?_ h.counted
      rw [h.totalClusters]
      exact h.small
    case unused =>
      intro q hq
      by_cases hne : q = r
      · rw [hne]
        exact fun huse => huse.2 (v.removed_isDeleted [3] hr)
      · rw [hchange.entry_apart hwf .root h.chain_root hq hne]
        exact h.others q hq hne
    case free =>
      have hthree : v.fs.InRange 3 := h.chain.inRange 3 (by simp)
      apply Volume.freeList_eq_of_mem
      · refine List.pairwise_cons.mpr ⟨?_, List.pairwise_lt_range'⟩
        intro c hc
        rw [List.mem_range'_1] at hc
        omega
      · intro c
        rw [List.mem_cons, ← h.free, Volume.mem_freeList, hchange.fs]
        rw [hchange.link c (by simp)]
        by_cases hc : c = 3
        · simp [hc, hthree]
        · simp [hc]

end Volume.Opened

/-- Three calls after which nothing but lost clusters is left. -/
theorem Reaches.round {total : UInt64} {label : Option (List UInt8)} {v : Volume}
    {clusters lost : Nat} (hv : Reaches total label (fun _ _ => True) v)
    (h : v.Leaked clusters lost) {data : List UInt8}
    (hsize : data.length < 4294967296)
    (hroom : clustersFor data.length ≤ clusters - 2 - lost)
    (hlow : 4 + lost + clustersFor data.length ≤ eoc) :
    ∃ v', Reaches total label (fun _ _ => True) v' ∧
      v'.Leaked clusters (lost + clustersFor data.length) := by
  obtain ⟨w, p, hcreate, hw, hdots, hslot⟩ := h.create
  obtain ⟨x, hwrite, hx, -⟩ := hw.write hdots hslot hsize hroom hlow
  obtain ⟨v', hdelete, hv'⟩ := hx.delete
  have hvw : Reaches total label (fun _ _ => True) w :=
    hv.call (c := .createDirectoryIn 2 roundDirectory)
      ⟨roundDirectory_ascii, _, h.directory⟩ trivial hcreate
  have hvx : Reaches total label (fun _ _ => True) x :=
    hvw.call (c := .writeFileIn 3 roundFile data)
      ⟨roundFile_ascii, hsize, _, hw.directory⟩ trivial hwrite
  exact ⟨v', hvx.call (c := .deleteFile roundDirectory) roundDirectory_ascii
    trivial hdelete, hv'⟩

theorem Reaches.rounds {total : UInt64} {label : Option (List UInt8)}
    {clusters count : Nat} {v : Volume}
    (hv : Reaches total label (fun _ _ => True) v) (h : v.Leaked clusters 0)
    {data : List UInt8} (hsize : data.length < 4294967296)
    (hroom : count * clustersFor data.length ≤ clusters - 2)
    (hlow : 4 + count * clustersFor data.length ≤ eoc) :
    ∃ v', Reaches total label (fun _ _ => True) v' ∧
      v'.Leaked clusters (count * clustersFor data.length) := by
  induction count with
  | zero => exact ⟨v, hv, by simpa using h⟩
  | succ count ih =>
      rw [Nat.succ_mul] at hroom hlow ⊢
      obtain ⟨w, hw, hleaked⟩ := ih (by omega) (by omega)
      exact hw.round hleaked hsize (by omega) (by omega)

/-- On 2200000000 sectors, 255 rounds of 2^20 clusters each. -/
theorem exists_large_leak :
    Formattable (2200000000 : UInt64).toNat ∧
    ∃ v, Reaches 2200000000 none (fun _ _ => True) v ∧
      v.Leaked 274463933 267386880 := by
  have h : Formattable (2200000000 : UInt64).toNat := by decide
  obtain ⟨v, hv, hlayout, hfresh⟩ := exists_reaches_fresh h none fun _ _ => True
  have hclusters : formatClusters (2200000000 : UInt64).toNat = 274463933 := by
    decide
  rw [hclusters] at hfresh
  have hleaked : v.Leaked 274463933 0 := hfresh.leaked hlayout (by decide)
  obtain ⟨data, hdata⟩ : ∃ data : List UInt8, data.length = 4294967295 :=
    ⟨List.replicate _ 0, List.length_replicate⟩
  have hcount : clustersFor data.length = 1048576 := by
    rw [hdata]
    rfl
  obtain ⟨w, hw, hlost⟩ := hv.rounds hleaked
    (by omega : data.length < 4294967296)
    (show 255 * clustersFor data.length ≤ 274463933 - 2 by omega)
    (by rw [hcount]; decide)
  rw [hcount] at hlost
  exact ⟨h, w, hw, hlost⟩

theorem Volume.Leaked.write_root {v : Volume} {clusters lost : Nat}
    (h : v.Leaked clusters lost) {data : List UInt8} {count : Nat}
    (hcount : clustersFor data.length = count + 1)
    (hroom : count ≤ clusters - 2 - lost)
    (hlow : 3 + lost + count ≤ 268435456) :
    ∃ p, v.Target [2] (nameToFat roundFile) p [] ∧
      v.taken [] data.length = 3 :: List.range' (4 + lost) count ∧
      Executes v (writeFileIn 2 roundFile data) 0
        (v.written p [] (nameToFat roundFile) data) := by
  have hwf := h.regular.wellFormed
  rcases writeFileIn_cases roundFile h.layout hwf h.directory with
    ⟨hfull, -⟩ | ⟨p, old, htarget, hexec, -⟩
  · have hmem : ((2, 0) : Place) ∈ places [2] := by simp [mem_places]
    exact absurd (hfull _ hmem).1 (h.unused _ hmem)
  · have hold : old = [] := htarget.unused (h.unused p htarget.mem)
    subst hold
    have htaken : v.taken [] data.length =
        3 :: List.range' (4 + lost) count := by
      have hrelease : v.release [] = v := rfl
      rw [Volume.taken, hrelease, h.free, hcount, List.take_succ_cons,
        List.take_range'_of_length_ge hroom]
    refine ⟨p, htarget, htaken, (hexec data ?_ ?_).2 h.infoApart⟩
    · rw [htaken]
      intro c hc
      cases count with
      | zero => simp at hc
      | succ count =>
          rw [List.range'_1_concat, ← List.cons_append, List.dropLast_concat,
            List.mem_cons, List.mem_range'_1] at hc
          omega
    · rw [htaken, hcount, List.length_cons, List.length_range']

/-- After the rounds, a file of `count + 1` clusters is written to the root. -/
theorem exists_large_write (count : Nat) (hsmall : count ≤ 1048573) :
    Formattable (2200000000 : UInt64).toNat ∧
    ∃ v p data, Reaches 2200000000 none (fun _ _ => True) v ∧
      v.Leaked 274463933 267386880 ∧ data.length < 4294967296 ∧
      clustersFor data.length = count + 1 ∧
      v.Target [2] (nameToFat roundFile) p [] ∧
      v.taken [] data.length = 3 :: List.range' (4 + 267386880) count ∧
      Executes v (writeFileIn 2 roundFile data) 0
        (v.written p [] (nameToFat roundFile) data) := by
  obtain ⟨h, v, hv, hleaked⟩ := exists_large_leak
  obtain ⟨data, hdata⟩ : ∃ data : List UInt8, data.length = 4096 * (count + 1) :=
    ⟨List.replicate _ 0, List.length_replicate⟩
  have hcount : clustersFor data.length = count + 1 := by
    rw [clustersFor, hdata]
    omega
  obtain ⟨p, htarget, htaken, hexec⟩ :=
    hleaked.write_root hcount (by omega) (by omega)
  exact ⟨h, v, p, data, hv, hleaked, by omega, hcount, htarget, htaken, hexec⟩

end EntropyOS.Fat32
