import EntropyOS.Fat32.Calls

/-!
# Every successful call changes one entry

A write, a new directory and the two ways to delete are changes in the sense
of `Volume.Change`, as long as the clusters they take have numbers below the
end marks.
-/

namespace EntropyOS.Fat32

open EntropyOS.Foundation

/-! ## New directories -/

theorem entryAt_zero_isEnd (i : Nat) : (entryAt (fun _ => 0) i).IsEnd := by
  simp [DirEntry.IsEnd, entryAt, DirEntry.ofBytes]

theorem dotEntries_zero (c dotDot : Nat) :
    entryAt (dotEntries c dotDot) 0 = DirEntry.make dotName attrDirectory c 0 := by
  rw [dotEntries, entryAt_setEntry_ne _ _ (by decide), entryAt_setEntry_self]

theorem dotEntries_one (c dotDot : Nat) :
    entryAt (dotEntries c dotDot) 1 =
      DirEntry.make dotDotName attrDirectory dotDot 0 := by
  rw [dotEntries, entryAt_setEntry_self]

theorem dotEntries_isEnd (c dotDot : Nat) {i : Nat} (hi : 2 ≤ i) :
    (entryAt (dotEntries c dotDot) i).IsEnd := by
  rw [dotEntries, entryAt_setEntry_ne _ _ (by omega),
    entryAt_setEntry_ne _ _ (by omega)]
  exact entryAt_zero_isEnd i

namespace Volume

section NewDirectory

variable {v : Volume} {c dotDot : Nat}
  (hentries : ∀ i < 128, v.entry (c, i) = entryAt (dotEntries c dotDot) i)

include hentries

private theorem new_inUse {i : Nat} (hi : i < 128)
    (huse : (v.entry (c, i)).InUse) : i = 0 ∨ i = 1 := by
  by_contra hother
  rw [hentries i hi] at huse
  exact huse.1 (dotEntries_isEnd c dotDot (by omega))

theorem new_isDot {q : Place} (hq : q ∈ places [c])
    (huse : (v.entry q).InUse) : (v.entry q).IsDot := by
  obtain ⟨hc, hi⟩ := mem_places.mp hq
  obtain ⟨d, i⟩ := q
  obtain rfl := List.mem_singleton.mp hc
  rcases new_inUse hentries hi huse with rfl | rfl
  · rw [hentries 0 hi, dotEntries_zero]
    exact .inl rfl
  · rw [hentries 1 hi, dotEntries_one]
    exact .inr rfl

theorem new_orderly : v.Orderly (places [c]) := by
  constructor
  · rintro ⟨d, i⟩ hq ⟨e, j⟩ hr hqUse hrUse hname
    obtain ⟨hd, hi⟩ := mem_places.mp hq
    obtain ⟨he, hj⟩ := mem_places.mp hr
    obtain rfl := List.mem_singleton.mp hd
    obtain rfl := List.mem_singleton.mp he
    rcases new_inUse hentries hi hqUse with rfl | rfl <;>
      rcases new_inUse hentries hj hrUse with rfl | rfl
    · rfl
    · rw [hentries 0 hi, hentries 1 hj, dotEntries_zero, dotEntries_one] at hname
      exact absurd hname (by simp only [DirEntry.make]; decide)
    · rw [hentries 0 hj, hentries 1 hi, dotEntries_zero, dotEntries_one] at hname
      exact absurd hname (by simp only [DirEntry.make]; decide)
    · rfl
  · have hplaces : places [c] = (c, 0) :: (c, 1) :: placesFrom c 2 126 := rfl
    have hdots : ∀ i < 2, ¬ (v.entry (c, i)).IsEnd := by
      intro i hi
      rw [hentries i (by omega)]
      interval_cases i
      · rw [dotEntries_zero]
        exact (inUse_of_isDot (.inl rfl)).1
      · rw [dotEntries_one]
        exact (inUse_of_isDot (.inr rfl)).1
    rw [hplaces]
    refine List.pairwise_cons.mpr ⟨fun q _ hend => absurd hend (hdots 0 (by decide)),
      List.pairwise_cons.mpr ⟨fun q _ hend => absurd hend (hdots 1 (by decide)), ?_⟩⟩
    refine List.Pairwise.imp_of_mem ?_ (List.pairwise_of_forall (fun _ _ => trivial))
    intro q r _ hr _ _ huse
    simp only [placesFrom, List.mem_map, List.mem_range'_1] at hr
    obtain ⟨i, hi, rfl⟩ := hr
    rw [hentries i (by omega)] at huse
    exact huse.1 (dotEntries_isEnd c dotDot hi.1)

end NewDirectory

/-! ## Storing an entry -/

theorem setEntry_entry (v w : Volume) (p : Place) (entry : DirEntry) {q : Place}
    (hq : q.2 < 128) :
    (w.setData p.1 (setEntry (v.data p.1) p.2 entry)).entry q =
      if q = p then entry else if q.1 = p.1 then v.entry q else w.entry q := by
  rw [setData_entry _ _ _ hq]
  by_cases hcluster : q.1 = p.1
  · rw [if_pos hcluster, if_pos hcluster]
    by_cases hindex : q.2 = p.2
    · rw [if_pos (Prod.ext hcluster hindex), hindex, entryAt_setEntry_self]
    · rw [if_neg (fun heq => hindex (by rw [heq])),
        entryAt_setEntry_ne _ _ hindex, Volume.entry, hcluster]
  · rw [if_neg hcluster, if_neg (fun heq => hcluster (by rw [heq])),
      if_neg hcluster]

theorem markDeleted_entry (v w : Volume) (p : Place) {q : Place}
    (hq : q.2 < 128) (hne : q ≠ p) (hcluster : q.1 = p.1) :
    (w.setData p.1 (markDeleted (v.data p.1) p.2)).entry q = v.entry q := by
  have hindex : q.2 ≠ p.2 := fun heq => hne (Prod.ext hcluster heq)
  rw [setData_entry _ _ _ hq, if_pos hcluster, entryAt_markDeleted_ne _ hindex,
    Volume.entry, hcluster]

section Written

variable {v : Volume} {l old : List Nat} {p q : Place} {name : Name}
  {data : List UInt8}

@[simp] theorem written_fs : (v.written p old name data).fs = v.fs := by
  simp [written]

def fileEntry (v : Volume) (old : List Nat) (name : Name) (data : List UInt8) :
    DirEntry :=
  .make name attrArchive ((v.taken old data.length).headD 0) data.length

theorem fileEntry_fileSize (v : Volume) (old : List Nat) (name : Name)
    (hsize : data.length < 4294967296) :
    (v.fileEntry old name data).fileSize.toNat = data.length := by
  simp only [fileEntry, DirEntry.make, UInt32.toNat_ofNat']
  exact Nat.mod_eq_of_lt hsize

theorem written_link {x : Nat} (hx : x ∉ v.taken old data.length) :
    (v.written p old name data).link x = if x ∈ old then free else v.link x := by
  simp only [written, finish_link, setData_link]
  rw [fill_link_other _ _ hx (by simp), release_link]

theorem written_data {x : Nat} (hx : x ∉ v.taken old data.length)
    (hp : x ≠ p.1) : (v.written p old name data).data x = v.data x := by
  simp only [written, finish_data, setData, Function.update_of_ne hp]
  rw [fill_data_other _ _ _ hx, release_data]

theorem written_entry (v : Volume) (p : Place) (old : List Nat) (name : Name)
    (data : List UInt8) (hq : q.2 < 128) :
    (v.written p old name data).entry q =
      if q = p then v.fileEntry old name data
      else if q.1 = p.1 then v.entry q
      else ((v.release old).fill (v.taken old data.length) data 0).entry q := by
  rw [written, finish_entry, setEntry_entry _ _ _ _ hq]
  rfl

theorem mem_taken {size c : Nat} (h : c ∈ v.taken old size) :
    v.fs.InRange c ∧ (v.link c = free ∨ c ∈ old) := by
  have hmem := List.mem_of_mem_take h
  rw [mem_freeList, release_fs, release_link] at hmem
  obtain ⟨hrange, hlink⟩ := hmem
  refine ⟨hrange, ?_⟩
  by_cases hold : c ∈ old
  · exact .inr hold
  · rw [if_neg hold] at hlink
    exact .inl hlink

theorem taken_nodup (v : Volume) (old : List Nat) (size : Nat) :
    (v.taken old size).Nodup :=
  (v.release old).freeList_nodup.sublist (List.take_sublist _ _)

/-- Below the end marks, the clusters taken are the chain of the file. -/
theorem written_chain (hlow : ∀ c ∈ v.taken old data.length, c < eoc) :
    (v.written p old name data).Chain ((v.taken old data.length).headD 0)
      (v.taken old data.length) := by
  have hlinks : (v.written p old name data).link =
      ((v.release old).fill (v.taken old data.length) data 0).link := by
    simp [written]
  have hrange : ∀ c ∈ v.taken old data.length, v.fs.InRange c :=
    fun c hc => (mem_taken hc).1
  have hnodup := v.taken_nodup old data.length
  cases hcs : v.taken old data.length with
  | nil => exact Chain.nil _
  | cons c rest =>
      rw [hcs] at hlinks hlow hrange hnodup
      refine chain_of_isChain (by simpa using hrange) hlow ?_ ?_
      · rw [hlinks]
        refine fill_chain _ _ hnodup (fun d hd => (hrange d hd).1) fun d hd => ?_
        have := hlow d hd
        simp only [eoc] at this
        omega
      · intro d hd
        rw [hlinks]
        refine fill_link_last _ _ (List.nodup_cons.mpr ⟨fun h => ?_, hnodup⟩) hd
        have := (hrange 0 h).1
        omega

theorem written_link_next {before after : List Nat} {c d : Nat}
    (htaken : v.taken old data.length = before ++ c :: d :: after) :
    (v.written p old name data).link c = d % 268435456 := by
  have hnodup := v.taken_nodup old data.length
  have hmem : c ∈ v.taken old data.length := by
    rw [htaken]
    simp
  have hzero : c ≠ 0 := by
    have := (mem_taken hmem).1.1
    omega
  simp only [written, finish_link, setData_link]
  rw [htaken] at hnodup ⊢
  exact fill_link_next _ _ hnodup hzero

/-- A cluster number among the end marks cuts the chain before it. -/
theorem written_cut {cs more : List Nat} {c : Nat}
    (htaken : v.taken old data.length = cs ++ c :: more) (hne : cs ≠ [])
    (hlow : ∀ d ∈ cs, d < eoc) (hc : eoc ≤ c) (hsmall : c < 268435456) :
    Walk (v.written p old name data).link Live (cs.headD 0) cs c := by
  have hlive : ∀ d ∈ cs, Live d := by
    intro d hd
    have hmem : d ∈ v.taken old data.length := by
      rw [htaken]
      exact List.mem_append_left _ hd
    exact ⟨(mem_taken hmem).1.1, hlow d hd⟩
  have hnext : ∀ a b before after, cs ++ c :: more = before ++ a :: b :: after →
      b < 268435456 → (v.written p old name data).link a = b := by
    intro a b before after heq hb
    rw [written_link_next (htaken.trans heq)]
    exact Nat.mod_eq_of_lt hb
  obtain ⟨d, rest, rfl⟩ := List.exists_cons_of_ne_nil hne
  rw [List.headD_cons]
  apply Walk.of_isChain
  · rw [List.isChain_iff_forall_rel_of_append_cons_cons]
    intro a b before after heq
    have hb : b < eoc := hlow b (by simp [heq])
    refine hnext a b before (after ++ c :: more) ?_ (hb.trans (by decide))
    rw [heq]
    simp
  · exact hlive
  · intro a ha
    obtain ⟨before, heq⟩ := List.getLast?_eq_some_iff.mp ha
    refine hnext a c before more ?_ hsmall
    rw [heq]
    simp
  · exact fun h => absurd h.2 (not_lt.mpr hc)

theorem make_archive_not_isDir (name : Name) (cluster size : Nat) :
    ¬ (DirEntry.make name attrArchive cluster size).HasAttr attrDirectory := by
  have hbits : attrArchive &&& attrDirectory = 0 := by decide
  simp [DirEntry.HasAttr, DirEntry.make, hbits]

theorem written_change {n : Node} {filename : List UInt8} (hv : v.WellFormed)
    (hn : v.Reach n) (hdir : v.IsDir n) (hl : v.Chain (v.first n) l)
    (hascii : Ascii filename)
    (htarget : v.Target l (nameToFat filename) p old)
    (hlow : ∀ c ∈ v.taken old data.length, c < eoc) :
    v.Change (v.written p old (nameToFat filename) data) n l p old
      (v.taken old data.length) := by
  have hp := (mem_places.mp htarget.mem).2
  have hentry : (v.written p old (nameToFat filename) data).entry p =
      v.fileEntry old (nameToFat filename) data := by
    rw [written_entry _ _ _ _ _ hp, if_pos rfl]
  have hhead : (v.taken old data.length).headD 0 < 4294967296 := by
    cases hcs : v.taken old data.length with
    | nil => simp
    | cons c rest =>
        have := hlow c (by simp [hcs])
        simp only [eoc] at this
        simp only [List.headD_cons]
        omega
  constructor
  case fs => exact written_fs
  case reach => exact hn
  case isDir => exact hdir
  case chain => exact hl
  case mem => exact htarget.mem
  case replaced =>
    intro huse
    obtain ⟨-, hname, hold⟩ := htarget.inUse_iff.mp huse
    exact ⟨not_isDot_of_name hname, hold⟩
  case unused => exact htarget.unused
  case fresh => exact fun c hc => (mem_taken hc).2
  case link => exact fun c hc => written_link hc
  case data => exact fun c hc hne => written_data hc hne
  case entries =>
    intro i hi hne
    have hplace : ((p.1, i) : Place) ≠ p := fun heq => hne (by rw [← heq])
    rw [written_entry _ _ _ _ _ hi, if_neg hplace, if_pos rfl]
  case stored =>
    intro _
    constructor
    case notDot =>
      rw [hentry]
      exact make_not_isDot _ _ _ _
    case chain =>
      rw [hentry, fileEntry, DirEntry.make_firstCluster _ _ _ hhead]
      exact written_chain hlow
    case name =>
      rw [hentry]
      exact htarget.others (hv.orderly n l hn hdir hl)
    case place => exact htarget.place
    case orderly =>
      intro hisDir
      rw [IsDir, hentry] at hisDir
      exact absurd hisDir (make_archive_not_isDir _ _ _)
    case childless =>
      intro q hchild
      have hisDir := hchild.isDir
      rw [IsDir, hentry] at hisDir
      exact make_archive_not_isDir _ _ _ hisDir
  case removed =>
    intro hnot
    rw [hentry] at hnot
    exact absurd (make_inUse hascii _ _ _) hnot

end Written

section Created

variable {v : Volume} {l rest : List Nat} {p q : Place} {c parent : Nat}
  {name : Name}

theorem created_link {x : Nat} (hx : x ≠ c) :
    (v.created p c parent name).link x = v.link x := by
  simp [created, take_link, hx]

theorem created_data {x : Nat} (hx : x ≠ c) (hp : x ≠ p.1) :
    (v.created p c parent name).data x = v.data x := by
  simp [created, setData, hx, hp]

theorem created_entry (hq : q.2 < 128) :
    (v.created p c parent name).entry q =
      if q = p then .make name attrDirectory c 0
      else if q.1 = p.1 then v.entry q
      else if q.1 = c then entryAt (dotEntries c
        (if parent = v.fs.rootDirCluster then 0 else parent)) q.2
      else v.entry q := by
  rw [created, finish_entry, setEntry_entry _ _ _ _ hq, setData_entry _ _ _ hq]
  rfl

theorem make_directory_isDir (name : Name) (cluster size : Nat) :
    (DirEntry.make name attrDirectory cluster size).HasAttr attrDirectory := by
  simp [DirEntry.HasAttr, DirEntry.make, attrDirectory]

theorem created_change (parent : Nat) {n : Node} {dirname : List UInt8}
    (hv : v.WellFormed)
    (hn : v.Reach n) (hdir : v.IsDir n) (hl : v.Chain (v.first n) l)
    (hascii : Ascii dirname) (htarget : v.Target l (nameToFat dirname) p [])
    (hunused : ¬ (v.entry p).InUse) (hfree : v.freeList = c :: rest)
    (hlow : c < eoc) :
    v.Change (v.created p c parent (nameToFat dirname)) n l p [] [c] := by
  obtain ⟨hpl, hp⟩ := mem_places.mp htarget.mem
  have hmem : c ∈ v.freeList := by simp [hfree]
  obtain ⟨hrange, hlink⟩ := mem_freeList.mp hmem
  have hpc : p.1 ≠ c := fun heq => hl.link_ne_free hpl (heq ▸ hlink)
  have hentry : (v.created p c parent (nameToFat dirname)).entry p =
      .make (nameToFat dirname) attrDirectory c 0 := by
    rw [created_entry hp, if_pos rfl]
  have hdots : ∀ i < 128, (v.created p c parent (nameToFat dirname)).entry (c, i) =
      entryAt (dotEntries c
        (if parent = v.fs.rootDirCluster then 0 else parent)) i := by
    intro i hi
    rw [created_entry hi, if_neg (fun heq => hpc (by rw [← heq])),
      if_neg (Ne.symm hpc), if_pos rfl]
  have hfirst : (DirEntry.make (nameToFat dirname) attrDirectory c 0).firstCluster
      = c := by
    apply DirEntry.make_firstCluster
    simp only [eoc] at hlow
    omega
  have hchain : (v.created p c parent (nameToFat dirname)).Chain c [c] := by
    apply chain_of_isChain
    · simpa [created] using hrange
    · simpa using hlow
    · exact .singleton c
    · intro d hd
      simp only [List.getLast?_singleton, Option.some.injEq] at hd
      simp [created, take_link, hd]
  constructor
  case fs => simp [created]
  case reach => exact hn
  case isDir => exact hdir
  case chain => exact hl
  case mem => exact htarget.mem
  case replaced => exact fun huse => absurd huse hunused
  case unused => exact fun _ => rfl
  case fresh =>
    intro d hd
    rw [List.mem_singleton.mp hd]
    exact .inl hlink
  case link =>
    intro d hd
    rw [created_link (by simpa using hd)]
    simp
  case data =>
    intro d hd hne
    exact created_data (by simpa using hd) hne
  case entries =>
    intro i hi hne
    have hplace : ((p.1, i) : Place) ≠ p := fun heq => hne (by rw [← heq])
    rw [created_entry hi, if_neg hplace, if_pos rfl]
  case stored =>
    intro _
    constructor
    case notDot =>
      rw [hentry]
      exact make_not_isDot _ _ _ _
    case chain =>
      rw [hentry, hfirst]
      exact hchain
    case name =>
      rw [hentry]
      exact htarget.others (hv.orderly n l hn hdir hl)
    case place => exact htarget.place
    case orderly => exact fun _ => new_orderly hdots
    case childless =>
      rintro q ⟨-, ⟨k, hk, hq⟩, huse, hdot⟩
      rw [first, hentry, hfirst] at hk
      obtain rfl := hk.unique hchain
      exact hdot (new_isDot hdots hq huse)
  case removed =>
    intro hnot
    rw [hentry] at hnot
    exact absurd (make_inUse hascii _ _ _) hnot

end Created

section Removed

variable {v : Volume} {l old : List Nat} {p : Place}

theorem removed_isDeleted (v : Volume) (old : List Nat) (hp : p ∈ places l) :
    ((v.removed p old).entry p).IsDeleted := by
  rw [removed, finish_entry, setData_entry _ _ _ (mem_places.mp hp).2, if_pos rfl]
  exact entryAt_markDeleted_self _ _

theorem removed_change {n : Node} (hn : v.Reach n) (hdir : v.IsDir n)
    (hl : v.Chain (v.first n) l) (hp : p ∈ places l)
    (huse : (v.entry p).InUse) (hdot : ¬ (v.entry p).IsDot)
    (hold : v.Chain (v.entry p).firstCluster old) :
    v.Change (v.removed p old) n l p old [] := by
  have hdeleted := v.removed_isDeleted old hp
  constructor
  case fs => simp [removed]
  case reach => exact hn
  case isDir => exact hdir
  case chain => exact hl
  case mem => exact hp
  case replaced => exact fun _ => ⟨hdot, hold⟩
  case unused => exact fun hnot => absurd huse hnot
  case fresh => simp
  case link => simp [removed, release_link]
  case data =>
    intro c _ hne
    simp [removed, setData, hne]
  case entries =>
    intro i hi hne
    have hplace : ((p.1, i) : Place) ≠ p := fun heq => hne (by rw [← heq])
    rw [removed, finish_entry, markDeleted_entry v _ p hi hplace rfl]
  case stored => exact fun hin => absurd hdeleted hin.2
  case removed => exact fun _ => ⟨hdeleted, rfl⟩

end Removed

end Volume

end EntropyOS.Fat32
