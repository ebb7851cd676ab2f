import EntropyOS.Fat32.RoundTrip

/-!
# Writes that fail

A write that finds its directory full changes nothing.  One that runs out of
clusters has given back the old chain and taken every free cluster by then,
and `fat32_write_file_in` returns without undoing either.
-/

namespace EntropyOS.Fat32

open EntropyOS.Foundation

/-- Every name reads as before, and the same clusters are free. -/
structure Intact (s s' : System) : Prop where
  answers : ∀ d l filename, (volumeOf s).Directory d l →
    SameAnswers s s' d filename
  free : ∀ c, c ∈ (volumeOf s').freeList ↔ c ∈ (volumeOf s).freeList

theorem Intact.of_represents {s s' : System} {v : Volume} (hv : v.WellFormed)
    (hs : Represents s v) (hs' : Represents s' v) : Intact s s' := by
  obtain ⟨-, -, heq⟩ := represents_iff.mp hs
  obtain ⟨-, -, heq'⟩ := represents_iff.mp hs'
  constructor
  case answers =>
    intro d l filename hd
    rw [heq] at hd
    obtain ⟨⟨n, hn, hdir, rfl⟩, hl⟩ := hd
    obtain ⟨last, hwalk, -⟩ := hl.ends
    refine SameAnswers.of_sameName hs hs' rfl hwalk hwalk hl.inRange
      ⟨rfl, fun _ _ => rfl, fun p hp => ?_⟩
    obtain ⟨hmem, hnamed⟩ :=
      (Volume.lookup_eq_some_iff (hv.orderly n l hn hdir hl)).mp hp
    obtain ⟨cs, hcs⟩ := hv.chain (.entry p) (.child hn
      ⟨hdir, ⟨l, hl, hmem⟩, hnamed.1, not_isDot_of_name hnamed.2.2⟩)
    obtain ⟨last', hwalk', -⟩ := hcs.ends
    exact ⟨cs, last', hwalk', hwalk', hcs.inRange, fun _ _ _ => rfl⟩
  case free =>
    intro c
    rw [heq, heq']

/-- Every slot of the directory is in use, under another name. -/
def Volume.Full (v : Volume) (parent : Nat) (name : Name) : Prop :=
  ∀ l, v.Directory parent l → ∀ q ∈ places l,
    (v.entry q).InUse ∧ (v.entry q).name ≠ name

/-- No cluster is free, and none is held under the name. -/
def Volume.Exhausted (v : Volume) (parent : Nat) (name : Name) : Prop :=
  v.freeList = [] ∧
    ∀ l old, v.Directory parent l → v.Held l name old → old = []

theorem Volume.exhausted_freeList {v : Volume} {old : List Nat}
    {data : List UInt8}
    (hshort : (v.taken old data.length).length ≠ clustersFor data.length)
    (hsmall : ∀ c ∈ v.taken old data.length, c < 268435456) :
    (v.exhausted old data).freeList = [] := by
  have hall : v.taken old data.length = (v.release old).freeList := by
    rw [Volume.taken, List.take_eq_self_iff]
    rw [Volume.taken, List.length_take] at hshort
    omega
  refine Volume.fill_freeList ?_ (.inl rfl) hsmall
  rw [hall, List.append_nil]

section Failure

variable {s s' : System} {parent : Nat} {l : List Nat}
  {filename data : List UInt8}

/--
A failed write leaves the volume intact when the directory was full, or when
there was neither a free cluster nor an old chain; with a free cluster and a
free slot, it never does.
-/
theorem writeFileIn_failure (hs : s.device.FaultFree)
    (hlayout : s.fat32.fs.Layout) (hwf : (volumeOf s).WellFormed)
    (hdir : (volumeOf s).Directory parent l)
    (hrun : writeFileIn parent filename data s = some (-1, s')) :
    ((volumeOf s).Full parent (nameToFat filename) ∨
        (volumeOf s).Exhausted parent (nameToFat filename) → Intact s s') ∧
    (s.fat32.fs.totalClusters + 2 ≤ 268435456 → Intact s s' →
      (volumeOf s).Full parent (nameToFat filename) ∨
        (volumeOf s).freeList = []) := by
  have hrep : Represents s (volumeOf s) := represents_iff.mpr ⟨hs, hlayout, rfl⟩
  have hfs : (volumeOf s).fs = s.fat32.fs := rfl
  rcases writeFileIn_cases filename (v := volumeOf s) hlayout hwf hdir with
    ⟨hfull, hexec⟩ | ⟨p, old, htarget, hwrite, hfail⟩
  · obtain ⟨t, ht, hrep'⟩ := hexec data s hrep
    rw [hrun] at ht
    obtain rfl : s' = t := congrArg Prod.snd (Option.some.inj ht)
    refine ⟨fun _ => .of_represents hwf hrep hrep', fun _ _ => .inl ?_⟩
    intro k hk
    obtain rfl := hdir.chain.unique hk.chain
    exact hfull
  · -- the run did fail, so the clusters did not suffice
    have hshort : (∀ c ∈ (volumeOf s).taken old data.length, c < 268435456) →
        ((volumeOf s).taken old data.length).length ≠ clustersFor data.length ∧
        Represents s' ((volumeOf s).exhausted old data) := by
      intro hsmall
      have hne : ((volumeOf s).taken old data.length).length ≠
          clustersFor data.length := by
        intro hlength
        obtain ⟨t, ht⟩ := (hwrite data
          (fun c hc => hsmall c (List.mem_of_mem_dropLast hc)) hlength).1 s hrep
        simp [hrun] at ht
      obtain ⟨t, ht, hrep'⟩ := hfail data hsmall hne s hrep
      rw [hrun] at ht
      obtain rfl : s' = t := congrArg Prod.snd (Option.some.inj ht)
      exact ⟨hne, hrep'⟩
    constructor
    · rintro (hfull | ⟨hfree, hheld⟩)
      · obtain ⟨huse, hname⟩ := hfull l hdir p htarget.mem
        exact absurd (htarget.inUse_iff.mp huse).2.1 hname
      · obtain rfl := hheld l old hdir htarget.held
        have htaken : (volumeOf s).taken [] data.length = [] := by
          have hrelease : (volumeOf s).release [] = volumeOf s := rfl
          rw [Volume.taken, hrelease, hfree, List.take_nil]
        have hsame : (volumeOf s).exhausted [] data = volumeOf s := by
          rw [Volume.exhausted, htaken]
          rfl
        obtain ⟨-, hrep'⟩ := hshort (by simp [htaken])
        rw [hsame] at hrep'
        exact .of_represents hwf hrep hrep'
    · intro hbits hintact
      have hsmall : ∀ c ∈ (volumeOf s).taken old data.length, c < 268435456 := by
        intro c hc
        have hrange := (Volume.mem_taken hc).1.2
        rw [hfs] at hrange
        omega
      obtain ⟨hne, hrep'⟩ := hshort hsmall
      obtain ⟨-, -, heq'⟩ := represents_iff.mp hrep'
      right
      refine List.eq_nil_iff_forall_not_mem.mpr fun c hc => ?_
      rw [← hintact.free c, heq', Volume.exhausted_freeList hne hsmall] at hc
      simp at hc

end Failure

/-- A file fills 100 sectors, and the next write leaves it as it is. -/
theorem file_kept_on_full_volume :
    ∃ (s s' : System) (p : Place), p ∈ places [2] ∧
      (volumeOf s).Named (nameToFat roundFile) p ∧
      ((volumeOf s).entry p).fileSize.toNat = 28672 ∧
      writeFileIn 2 roundDirectory [7] s = some (-1, s') ∧ Intact s s' := by
  have h : Formattable (100 : UInt64).toNat := by decide
  obtain ⟨v, ⟨s, -, hrep⟩, hlayout, hfresh⟩ :=
    exists_reaches_fresh h none fun _ _ => True
  have hleaked : v.Leaked 8 0 := hfresh.leaked hlayout (by decide)
  obtain ⟨data, hlength⟩ : ∃ data : List UInt8, data.length = 28672 :=
    ⟨List.replicate _ 7, List.length_replicate⟩
  have hcount : clustersFor data.length = 6 + 1 := by
    rw [hlength]
    rfl
  obtain ⟨p, hsite, htaken, hexec, hregular, hdir⟩ :=
    hleaked.store_root (by omega) hcount (by decide) (by decide)
  obtain ⟨s', -, hrep'⟩ := hexec s hrep
  have hentry := hsite.entry_self data
  have hmem := hsite.target.mem
  obtain ⟨-, hnamed⟩ :=
    (Volume.lookup_eq_some_iff (hsite.orderly data)).mp (hsite.lookup data)
  have hsize : ((v.written p [] (nameToFat roundFile) data).entry p).fileSize.toNat =
      28672 := by
    rw [hentry, Volume.fileEntry_fileSize _ _ _ (by omega), hlength]
  have hfree : (v.written p [] (nameToFat roundFile) data).freeList = [] := by
    refine Volume.written_freeList ?_ ?_
    · rw [htaken, List.append_nil]
      exact hleaked.free
    · rw [htaken]
      decide
  -- the file is the only entry, and it has another name
  have hnames : ∀ q ∈ places [2],
      ((v.written p [] (nameToFat roundFile) data).entry q).InUse →
      ((v.written p [] (nameToFat roundFile) data).entry q).name ≠
        nameToFat roundDirectory := by
    intro q hq huse
    by_cases hqp : q = p
    · subst hqp
      rw [hnamed.2.2]
      decide
    · rw [hsite.entry_other data hq hqp] at huse
      exact absurd huse (hleaked.unused q hq)
  generalize v.written p [] (nameToFat roundFile) data = w at *
  have hold : ∀ l old, w.Directory 2 l → w.Held l (nameToFat roundDirectory) old →
      old = [] := by
    intro l old hl hheld
    obtain rfl := hl.chain.unique hdir.chain
    rcases hheld with ⟨q, hq, huse, hname, -⟩ | ⟨-, hold⟩
    · exact absurd hname (hnames q hq huse)
    · exact hold
  obtain ⟨hs, hlayout', rfl⟩ := represents_iff.mp hrep'
  have hwf := hregular.wellFormed
  obtain ⟨t, hrun⟩ : ∃ t, writeFileIn 2 roundDirectory [7] s' = some (-1, t) := by
    rcases writeFileIn_cases roundDirectory hlayout' hwf hdir with
      ⟨-, hexec⟩ | ⟨q, old, htarget, -, hfail⟩
    · obtain ⟨t, ht, -⟩ := hexec [7] s' hrep'
      exact ⟨t, ht⟩
    · obtain rfl := hold [2] old hdir htarget.held
      have hnone : (volumeOf s').taken [] ([7] : List UInt8).length = [] := by
        have hrelease : (volumeOf s').release [] = volumeOf s' := rfl
        rw [Volume.taken, hrelease, hfree, List.take_nil]
      obtain ⟨t, ht, -⟩ := hfail [7] (by rw [hnone]; simp) (by rw [hnone]; decide)
        s' hrep'
      exact ⟨t, ht⟩
  exact ⟨s', t, p, hmem, hnamed, hsize, hrun,
    (writeFileIn_failure hs hlayout' hwf hdir hrun).1 (.inr ⟨hfree, hold⟩)⟩

/-- On 100 sectors, a file that needs all eight clusters takes the free seven. -/
theorem failed_write_takes_clusters :
    ¬ ∀ (s s' : System) (parent : Nat) (l : List Nat)
      (filename data : List UInt8), s.device.FaultFree →
      s.fat32.fs.Layout → (volumeOf s).WellFormed →
      (volumeOf s).Directory parent l → Ascii filename →
      data.length < 4294967296 →
      writeFileIn parent filename data s = some (-1, s') → Intact s s' := by
  intro hclaim
  have h : Formattable (100 : UInt64).toNat := by decide
  obtain ⟨v, ⟨s, -, hrep⟩, hlayout, hfresh⟩ :=
    exists_reaches_fresh h none fun _ _ => True
  have hleaked : v.Leaked 8 0 := hfresh.leaked hlayout (by decide)
  have hwf := hleaked.regular.wellFormed
  have hdir := hleaked.directory
  have hfree := hleaked.free
  obtain ⟨data, hlength⟩ : ∃ data : List UInt8, data.length = 32768 :=
    ⟨List.replicate _ 7, List.length_replicate⟩
  rcases writeFileIn_cases roundFile hlayout hwf hdir with
    ⟨hfull, -⟩ | ⟨p, old, htarget, -, hfail⟩
  · have hmem : ((2, 0) : Place) ∈ places [2] := by simp [mem_places]
    exact absurd (hfull _ hmem).1 (hleaked.unused _ hmem)
  · obtain rfl := htarget.unused (hleaked.unused p htarget.mem)
    have htaken : v.taken [] data.length = v.freeList := by
      have hrelease : v.release [] = v := rfl
      rw [Volume.taken, hrelease, List.take_of_length_le]
      rw [hfree, hlength]
      decide
    have hsmall : ∀ c ∈ v.taken [] data.length, c < 268435456 := by
      rw [htaken, hfree]
      decide
    have hne : (v.taken [] data.length).length ≠ clustersFor data.length := by
      rw [htaken, hfree, hlength]
      decide
    obtain ⟨s', hrun, hrep'⟩ := hfail data hsmall hne s hrep
    have hempty := Volume.exhausted_freeList hne hsmall
    obtain ⟨hs, hlayout', rfl⟩ := represents_iff.mp hrep
    obtain ⟨-, -, heq'⟩ := represents_iff.mp hrep'
    rw [← heq'] at hempty
    have hintact := hclaim s s' 2 [2] roundFile data hs hlayout' hwf hdir
      roundFile_ascii (by omega) hrun
    have hthree : 3 ∈ (volumeOf s).freeList := by
      rw [hfree]
      decide
    rw [← hintact.free 3, hempty] at hthree
    simp at hthree

end EntropyOS.Fat32
