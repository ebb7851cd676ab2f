import EntropyOS.Fat32.Leak
import EntropyOS.Fat32.Reading

/-!
# Writing a file and reading it back

A write that succeeds stores its data so that reading gives it back, and no
other name is touched, on every well-formed volume and not only on those this
driver has built.  It does so as long as the clusters it takes have numbers
below the end marks.
-/

namespace EntropyOS.Fat32

open EntropyOS.Foundation

/-- What the data loop stores in the clusters it takes. -/
theorem Volume.fill_data_getD (v : Volume) {cs : List Nat} (data : List UInt8)
    (prev : Nat) (hnodup : cs.Nodup) {i : Nat} (hi : i < cs.length) :
    (v.fill cs data prev).data (cs.getD i 0) =
      (Buf.ofList ((data.drop (4096 * i)).take 4096)).clip 4096 := by
  induction cs generalizing v data prev i with
  | nil => simp at hi
  | cons c cs ih =>
      obtain ⟨hc, hcs⟩ := List.nodup_cons.mp hnodup
      cases i with
      | zero =>
          rw [List.getD_cons_zero, Volume.fill, Volume.fill_data_other _ _ _ hc,
            Volume.append_data, Function.update_self]
          rfl
      | succ i =>
          rw [List.getD_cons_succ, Volume.fill,
            ih _ _ _ hcs (Nat.lt_of_succ_lt_succ hi), List.drop_drop,
            show 4096 + 4096 * i = 4096 * (i + 1) by omega]

private theorem clip_chunk (data : List UInt8) (i : Nat) {j : Nat} (hj : j < 4096) :
    (Buf.ofList ((data.drop (4096 * i)).take 4096)).clip 4096 j =
      Buf.ofList data (4096 * i + j) := by
  rw [Buf.clip_apply _ hj]
  simp only [Buf.ofList, List.getD_eq_getElem?_getD]
  rw [List.getElem?_take_of_lt hj, List.getElem?_drop]

/-! ## The directory that is written to -/

/-- A write in the directory `n`, with the clusters `l`, at the place `p`. -/
structure Volume.Site (v : Volume) (n : Node) (l old : List Nat) (p : Place)
    (filename : List UInt8) : Prop where
  wellFormed : v.WellFormed
  reach : v.Reach n
  isDir : v.IsDir n
  chain : v.Chain (v.first n) l
  ascii : Ascii filename
  target : v.Target l (nameToFat filename) p old

namespace Volume.Site

variable {v : Volume} {n : Node} {l old : List Nat} {p : Place}
  {filename : List UInt8}

theorem apart (h : v.Site n l old p filename) : v.Apart p n :=
  h.wellFormed.apart_of_mem h.reach h.chain h.target.mem

theorem not_old (h : v.Site n l old p filename) {c : Nat} (hc : c ∈ l) :
    c ∉ old := by
  cases h.target with
  | existing hp huse hname hold =>
      have hreach : v.Reach (.entry p) := .child h.reach
        ⟨h.isDir, ⟨l, h.chain, hp⟩, huse, not_isDot_of_name hname⟩
      exact fun hmem => h.wellFormed.disjoint n (.entry p) l old h.reach hreach
        h.apart.ne h.chain hold hc hmem
  | free => simp

theorem not_taken (h : v.Site n l old p filename) (size : Nat) {c : Nat}
    (hc : c ∈ l) : c ∉ v.taken old size := by
  intro hmem
  rcases (Volume.mem_taken hmem).2 with hfree | hold
  · exact h.chain.link_ne_free hc hfree
  · exact h.not_old hc hold

variable (data : List UInt8)

theorem walk (h : v.Site n l old p filename) :
    ∃ last, Walk v.link Live (v.first n) l last ∧
      Walk (v.written p old (nameToFat filename) data).link Live (v.first n) l
        last := by
  obtain ⟨last, hwalk, -⟩ := h.chain.ends
  refine ⟨last, hwalk, hwalk.congr fun c hc => ?_⟩
  rw [Volume.written_link (h.not_taken _ hc), if_neg (h.not_old hc)]

theorem entry_other (h : v.Site n l old p filename) {q : Place}
    (hq : q ∈ places l) (hne : q ≠ p) :
    (v.written p old (nameToFat filename) data).entry q = v.entry q := by
  obtain ⟨hmem, hbound⟩ := mem_places.mp hq
  rw [Volume.written_entry _ _ _ _ _ hbound, if_neg hne]
  split
  · rfl
  · simp only [Volume.entry]
    rw [Volume.fill_data_other _ _ _ (h.not_taken _ hmem), Volume.release_data]

theorem entry_self (h : v.Site n l old p filename) :
    (v.written p old (nameToFat filename) data).entry p =
      v.fileEntry old (nameToFat filename) data := by
  rw [Volume.written_entry _ _ _ _ _ (mem_places.mp h.target.mem).2, if_pos rfl]

theorem orderly (h : v.Site n l old p filename) :
    (v.written p old (nameToFat filename) data).Orderly (places l) := by
  have horder := h.wellFormed.orderly n l h.reach h.isDir h.chain
  have hentry := h.entry_self data
  have huse : (v.fileEntry old (nameToFat filename) data).InUse :=
    make_inUse h.ascii _ _ _
  refine horder.replace (p := p) (places_nodup h.chain.nodup) ?_ ?_ ?_ ?_
  · exact fun q hq hne => h.entry_other data hq hne
  · rw [hentry]
    exact huse.1
  · rw [hentry]
    exact fun _ => h.target.others horder
  · exact fun _ => horder.exists_split h.target.mem h.target.place

theorem lookup (h : v.Site n l old p filename) :
    (v.written p old (nameToFat filename) data).lookup (nameToFat filename)
      (places l) = some p := by
  have hbits : attrArchive &&& attrVolumeId = 0 := by decide
  rw [Volume.lookup_eq_some_iff (h.orderly data)]
  refine ⟨h.target.mem, ?_⟩
  rw [Volume.Named, h.entry_self data]
  refine ⟨make_inUse h.ascii _ _ _, ?_, rfl⟩
  simp [Volume.fileEntry, DirEntry.HasAttr, DirEntry.make, hbits]

/-- The bytes of the clusters that were taken are those of the data. -/
theorem byte (h : v.Site n l old p filename) {k : Nat}
    (hk : k < 4096 * (v.taken old data.length).length) :
    (v.written p old (nameToFat filename) data).data
      ((v.taken old data.length).getD (k / 4096) 0) (k % 4096) =
        Buf.ofList data k := by
  have hindex : k / 4096 < (v.taken old data.length).length := by omega
  have hmem : (v.taken old data.length).getD (k / 4096) 0 ∈
      v.taken old data.length := by
    rw [List.getD_eq_getElem?_getD, List.getElem?_eq_getElem hindex]
    exact List.getElem_mem hindex
  have hne : (v.taken old data.length).getD (k / 4096) 0 ≠ p.1 := by
    intro heq
    rw [heq] at hmem
    exact h.not_taken _ (mem_places.mp h.target.mem).1 hmem
  simp only [Volume.written, Volume.finish_data, Volume.setData,
    Function.update_of_ne hne]
  rw [Volume.fill_data_getD _ _ _ (v.taken_nodup _ _) hindex,
    clip_chunk _ _ (Nat.mod_lt _ (by decide)), Nat.div_add_mod]

theorem gather_taken (h : v.Site n l old p filename) {count : Nat}
    (hcount : count ≤ 4096 * (v.taken old data.length).length) (out : Buf) :
    (v.written p old (nameToFat filename) data).gather (v.taken old data.length)
      count 0 out = copyInto out 0 (Buf.ofList data) count := by
  funext k
  simp only [Volume.gather, copyInto, Nat.min_eq_left hcount, Nat.sub_zero]
  split
  · exact h.byte data (by omega)
  · rfl

/-- The directory keeps the bytes before the slot that is filled. -/
theorem byte_before (h : v.Site n l old p filename) {j : Nat}
    (hj : j < 32 * p.2) :
    (v.written p old (nameToFat filename) data).data p.1 j = v.data p.1 j := by
  have hbound := (mem_places.mp h.target.mem).2
  simp only [Volume.written, Volume.finish_data, Volume.setData,
    Function.update_self]
  rw [Buf.clip_apply _ (by omega), setEntry, if_neg (by omega)]

variable {data}

private theorem apart_of_ne (hfile : (v.entry p).InUse → ¬ v.IsDir (.entry p))
    {m : Node} (hm : v.Reach m) (hne : m ≠ .entry p) : v.Apart p m :=
  hm.apart hne fun hreach _ hchild => hfile hreach.inUse hchild.isDir

private theorem apart_of_isDir (hfile : (v.entry p).InUse → ¬ v.IsDir (.entry p))
    {m : Node} (hm : v.Reach m) (hdir : v.IsDir m) : v.Apart p m := by
  refine apart_of_ne hfile hm ?_
  rintro rfl
  exact hfile hm.inUse hdir

theorem chain_self (h : v.Site n l old p filename)
    (hlow : ∀ c ∈ v.taken old data.length, c < eoc) :
    (v.written p old (nameToFat filename) data).Chain
      ((v.written p old (nameToFat filename) data).entry p).firstCluster
      (v.taken old data.length) := by
  have hfirst : (v.fileEntry old (nameToFat filename) data).firstCluster =
      (v.taken old data.length).headD 0 := by
    refine DirEntry.make_firstCluster _ _ _ ?_
    cases hcs : v.taken old data.length with
    | nil => simp
    | cons c rest =>
        have := hlow c (by simp [hcs])
        simp only [eoc] at this
        simp only [List.headD_cons]
        omega
  rw [h.entry_self data, hfirst]
  exact Volume.written_chain hlow

/-- Every other name of every directory has the entry and the bytes it had. -/
theorem sameName (h : v.Site n l old p filename)
    (hlow : ∀ c ∈ v.taken old data.length, c < eoc)
    (hfile : (v.entry p).InUse → ¬ v.IsDir (.entry p))
    (hslot : ∀ q, n = .entry q →
      (v.entry q).fileSize.toNat ≤ 4096 * l.idxOf p.1 + 32 * p.2)
    {m : Node} {k : List Nat} {other : List UInt8} (hm : v.Reach m)
    (hdir : v.IsDir m) (hk : v.Chain (v.first m) k)
    (hne : m = n → nameToFat other ≠ nameToFat filename) :
    v.SameName (v.written p old (nameToFat filename) data) k
      (nameToFat other) := by
  have hv := h.wellFormed
  have hchange := Volume.written_change hv h.reach h.isDir h.chain
    h.ascii h.target hlow
  have hmp := apart_of_isDir hfile hm hdir
  have hself : p ∈ places k → nameToFat other ≠ nameToFat filename :=
    fun hp => hne (hv.owner_unique hm h.reach hk h.chain hp h.target.mem)
  -- a found entry is not the one at `p`
  have hfound : ∀ q, v.lookup (nameToFat other) (places k) = some q →
      q ∈ places k ∧ v.Named (nameToFat other) q ∧ q ≠ p := by
    intro q hq
    obtain ⟨hmem, hnamed⟩ :=
      (Volume.lookup_eq_some_iff (hv.orderly m k hm hdir hk)).mp hq
    refine ⟨hmem, hnamed, ?_⟩
    rintro rfl
    obtain ⟨-, hname, -⟩ := h.target.inUse_iff.mp hnamed.1
    exact hself hmem (hnamed.2.2.symm.trans hname)
  constructor
  case lookup =>
    have horder' := (hchange.wellFormed hv).orderly m k
      (hchange.reach_of_apart hv hmp) ((hchange.isDir_apart hv hmp).mpr hdir)
      ((hchange.chain_apart hv hmp).mpr hk)
    ext q
    rw [Volume.lookup_eq_some_iff horder']
    constructor
    · rintro ⟨hq, hnamed⟩
      by_cases hqp : q = p
      · subst hqp
        have hname := hnamed.2.2
        rw [h.entry_self data] at hname
        exact absurd hname.symm (hself hq)
      · rw [Volume.Named, hchange.entry_apart hv hmp hk hq hqp] at hnamed
        exact (Volume.lookup_eq_some_iff (hv.orderly m k hm hdir hk)).mpr
          ⟨hq, hnamed⟩
    · intro hq
      obtain ⟨hmem, hnamed, hqp⟩ := hfound q hq
      rw [Volume.Named, hchange.entry_apart hv hmp hk hmem hqp]
      exact ⟨hmem, hnamed⟩
  case entry =>
    intro q hq
    obtain ⟨hmem, -, hqp⟩ := hfound q hq
    exact hchange.entry_apart hv hmp hk hmem hqp
  case bytes =>
    intro q hq
    obtain ⟨hmem, hnamed, hqp⟩ := hfound q hq
    have hreach : v.Reach (.entry q) := .child hm
      ⟨hdir, ⟨k, hk, hmem⟩, hnamed.1, not_isDot_of_name hnamed.2.2⟩
    have hqa : v.Apart p (.entry q) := apart_of_ne hfile hreach (by simpa using hqp)
    obtain ⟨cs, hcs⟩ := hv.chain _ hreach
    obtain ⟨last, hwalk, -⟩ := hcs.ends
    refine ⟨cs, last, hwalk,
      hwalk.congr fun c hc => hchange.link_apart hv hqa hcs hc, hcs.inRange, ?_⟩
    intro i hsize hi
    have hindex : i / 4096 < cs.length := by omega
    have hget : cs.getD (i / 4096) 0 = cs[i / 4096] := by
      rw [List.getD_eq_getElem?_getD, List.getElem?_eq_getElem hindex]
      rfl
    have hc : cs[i / 4096] ∈ cs := List.getElem_mem hindex
    rw [hget]
    by_cases hp : cs[i / 4096] = p.1
    · -- the file is the directory itself, read as bytes
      have hmemp : p ∈ places cs :=
        mem_places.mpr ⟨hp ▸ hc, (mem_places.mp h.target.mem).2⟩
      obtain rfl := hv.owner_unique hreach h.reach hcs h.chain hmemp h.target.mem
      obtain rfl := hcs.unique h.chain
      have hidx : cs.idxOf p.1 = i / 4096 := by
        rw [← hp]
        exact hcs.nodup.idxOf_getElem _ hindex
      have hend := hslot q rfl
      rw [hidx] at hend
      rw [hp]
      exact h.byte_before data (by omega)
    · rw [hchange.data _ (hchange.not_mem_new hv hqa hcs hc) hp]

end Volume.Site

/-! ## The whole call -/

/-- The name is not that of a directory in `parent`. -/
def Volume.NotDirectory (v : Volume) (parent : Nat) (name : Name) : Prop :=
  ∀ l p, v.Directory parent l → p ∈ places l → (v.entry p).InUse →
    (v.entry p).name = name → ¬ v.IsDir (.entry p)

/--
`fat32_read_file_in` reads a directory like any file, as far as the size in
its own entry goes.  The size in the entry of `parent` ends before the slot
that the write fills.
-/
def Volume.SlotUnread (v : Volume) (parent : Nat) (name : Name) : Prop :=
  ∀ q l p old, v.Reach (.entry q) → v.IsDir (.entry q) →
    v.first (.entry q) = parent → v.Chain parent l → v.Target l name p old →
    (v.entry q).fileSize.toNat ≤ 4096 * l.idxOf p.1 + 32 * p.2

/-- The file reads back as `data`, and no other name reads differently. -/
structure RoundTrip (s s' : System) (parent : Nat) (filename data : List UInt8) :
    Prop where
  read : ∀ out maxSize bytesRead,
    Returns (readFileIn parent filename out maxSize bytesRead) s'
      ⟨0, copyInto out 0 (Buf.ofList data) (min data.length maxSize),
        min data.length maxSize⟩
  size : ∀ size, Returns (getFileSizeIn parent filename size) s' (0, data.length)
  frame : ∀ d l other, (volumeOf s).Directory d l →
    (d, nameToFat other) ≠ (parent, nameToFat filename) →
    SameAnswers s s' d other

namespace Volume.Site

variable {s s' : System} {v : Volume} {n : Node} {l old : List Nat} {p : Place}
  {filename data : List UInt8}

/-- With room below the end marks, the write keeps its promise. -/
theorem roundTrip (h : v.Site n l old p filename) (hs : Represents s v)
    (hs' : Represents s' (v.written p old (nameToFat filename) data))
    (hsize : data.length < 4294967296)
    (hlow : ∀ c ∈ v.taken old data.length, c < eoc)
    (hlength : (v.taken old data.length).length = clustersFor data.length)
    (hfile : (v.entry p).InUse → ¬ v.IsDir (.entry p))
    (hslot : ∀ q, n = .entry q →
      (v.entry q).fileSize.toNat ≤ 4096 * l.idxOf p.1 + 32 * p.2) :
    RoundTrip s s' (v.first n) filename data := by
  have hlayout' := hs'.layout
  obtain ⟨last, -, hwalk'⟩ := h.walk data
  have hrange' : ∀ c ∈ l,
      (v.written p old (nameToFat filename) data).fs.InRange c := by
    rw [Volume.written_fs]
    exact h.chain.inRange
  have hlookup := h.lookup data
  have hentry := h.entry_self data
  have hfileSize := v.fileEntry_fileSize old (nameToFat filename) hsize
  constructor
  case read =>
    intro out maxSize bytesRead
    have hchain := h.chain_self hlow
    obtain ⟨last', hcs, -⟩ := hchain.ends
    have hread := readFileIn_found hlayout' hwalk' hrange' hlookup hcs
      hchain.inRange out maxSize bytesRead
    rw [hentry, hfileSize, h.gather_taken data] at hread
    · exact hread.returns hs'
    · rw [hlength, clustersFor]
      omega
  case size =>
    intro size
    have hnow := getFileSizeIn_executes hlayout' hwalk' hrange' filename size
    simp only [hlookup, hentry, hfileSize] at hnow
    exact hnow.returns hs'
  case frame =>
    intro d k other hd hne
    obtain ⟨-, -, heq⟩ := represents_iff.mp hs
    rw [heq] at hd
    obtain ⟨⟨m, hm, hdir, rfl⟩, hk⟩ := hd
    have hchange := Volume.written_change (v := v) h.wellFormed h.reach h.isDir
      h.chain h.ascii h.target hlow
    obtain ⟨last', hwalk, -⟩ := hk.ends
    refine SameAnswers.of_sameName hs hs' hchange.fs hwalk
      (hwalk.congr fun c hc => hchange.link_apart h.wellFormed
        (apart_of_isDir hfile hm hdir) hk hc) hk.inRange ?_
    refine h.sameName hlow hfile hslot hm hdir hk ?_
    rintro rfl heq'
    exact hne (by rw [heq'])

/-- A cluster number among the end marks hides the rest of the file. -/
theorem not_read (h : v.Site n l old p filename)
    (hs' : Represents s' (v.written p old (nameToFat filename) data))
    (hsize : data.length < 4294967296)
    (hlength : (v.taken old data.length).length = clustersFor data.length)
    (hsmall : ∀ c ∈ v.taken old data.length, c < 268435456)
    {c : Nat} (hc : c ∈ v.taken old data.length) (hmark : eoc ≤ c) :
    ∃ out, ¬ Returns (readFileIn (v.first n) filename out data.length 0) s'
      ⟨0, copyInto out 0 (Buf.ofList data) (min data.length data.length),
        min data.length data.length⟩ := by
  have hsome : ((v.taken old data.length).find? (decide <| eoc ≤ ·)).isSome :=
    List.find?_isSome.mpr ⟨c, hc, decide_eq_true hmark⟩
  obtain ⟨d, hd⟩ := Option.isSome_iff_exists.mp hsome
  obtain ⟨hdmark, cs, more, htaken, hbefore⟩ := List.find?_eq_some_iff_append.mp hd
  have hmark' : eoc ≤ d := by simpa using hdmark
  have hlow : ∀ e ∈ cs, e < eoc := by
    intro e he
    simpa using hbefore e he
  have hdsmall : d < 268435456 := hsmall d (by simp [htaken])
  have hcs : Walk (v.written p old (nameToFat filename) data).link Live
      ((v.taken old data.length).headD 0) cs d := by
    cases hcases : cs with
    | nil =>
        rw [htaken, hcases]
        exact .stop fun hlive => absurd hlive.2 (not_lt.mpr hmark')
    | cons e rest =>
        have hcut : Walk (v.written p old (nameToFat filename) data).link Live
            (cs.headD 0) cs d :=
          Volume.written_cut htaken (by simp [hcases]) hlow hmark' hdsmall
        rw [hcases] at htaken hcut
        rw [htaken]
        exact hcut
  have hrange : ∀ e ∈ cs,
      (v.written p old (nameToFat filename) data).fs.InRange e := by
    intro e he
    rw [Volume.written_fs]
    have hmem : e ∈ v.taken old data.length := by simp [htaken, he]
    exact (Volume.mem_taken hmem).1
  have hfirst : (v.fileEntry old (nameToFat filename) data).firstCluster =
      (v.taken old data.length).headD 0 := by
    refine DirEntry.make_firstCluster _ _ _ ?_
    cases hcases : v.taken old data.length with
    | nil => simp
    | cons e rest =>
        have := hsmall e (by simp [hcases])
        simp only [List.headD_cons]
        omega
  rw [← hfirst, ← h.entry_self data] at hcs
  obtain ⟨last, -, hwalk'⟩ := h.walk data
  have hread := readFileIn_found hs'.layout hwalk'
    (by rw [Volume.written_fs]; exact h.chain.inRange) (h.lookup data) hcs hrange
    (fun k => Buf.ofList data k + 1) data.length 0
  rw [h.entry_self data, Volume.fileEntry_fileSize _ _ _ hsize] at hread
  refine ⟨fun k => Buf.ofList data k + 1, fun hreturns => ?_⟩
  have hequal := congrArg ReadResult.out ((hread.returns hs').unique hreturns)
  -- the first byte after the clusters that a reader follows
  have hbyte := congrFun hequal (4096 * cs.length)
  have hlt : 4096 * cs.length < data.length := by
    rw [htaken] at hlength
    simp only [List.length_append, List.length_cons, clustersFor] at hlength
    omega
  simp only [Volume.gather, copyInto] at hbyte
  rw [if_neg (by omega), if_pos (by omega)] at hbyte
  simp at hbyte

end Volume.Site

theorem Volume.le_room {v : Volume} {old : List Nat} {size : Nat}
    (hlength : (v.taken old size).length = clustersFor size)
    (hlow : ∀ c ∈ v.taken old size, c < eoc) : clustersFor size ≤ v.room old := by
  have hkept : (v.taken old size).filter (· < eoc) = v.taken old size := by
    rw [List.filter_eq_self]
    simpa using hlow
  have hsub : ((v.taken old size).filter (· < eoc)).Sublist
      ((v.release old).freeList.filter (· < eoc)) :=
    (List.take_sublist _ _).filter _
  rw [Volume.room_eq, ← hlength, ← hkept]
  exact hsub.length_le

section Write

variable {s s' : System} {parent : Nat} {l : List Nat}
  {filename data : List UInt8}

end Write

/-- A file of `count + 1` clusters in the root of such a volume. -/
theorem Volume.Leaked.store_root {v : Volume} {clusters lost : Nat}
    (h : v.Leaked clusters lost) {data : List UInt8} {count : Nat}
    (hsize : data.length < 4294967296)
    (hcount : clustersFor data.length = count + 1)
    (hroom : count ≤ clusters - 2 - lost) (hlow : 4 + lost + count ≤ eoc) :
    ∃ p, v.Site .root [2] [] p roundFile ∧
      v.taken [] data.length = 3 :: List.range' (4 + lost) count ∧
      Executes v (writeFileIn 2 roundFile data) 0
        (v.written p [] (nameToFat roundFile) data) ∧
      (v.written p [] (nameToFat roundFile) data).Regular ∧
      (v.written p [] (nameToFat roundFile) data).Directory 2 [2] := by
  have hroot : v.first .root = 2 := h.rootCluster
  have hchain : v.Chain (v.first .root) [2] := by
    rw [hroot]
    exact h.directory.chain
  rw [eoc] at hlow
  obtain ⟨p, htarget, htaken, hexec⟩ := h.write_root hcount hroom (by omega)
  have hbelow : ∀ c ∈ v.taken [] data.length, c < eoc := by
    intro c hc
    rw [htaken, List.mem_cons, List.mem_range'_1] at hc
    rw [eoc]
    omega
  have hwritten : Outcome v (.writeFileIn (v.first .root) roundFile data)
      (v.written p [] (nameToFat roundFile) data) := by
    refine .written .root trivial hchain roundFile_ascii hsize htarget hbelow ?_
    rw [htaken, hcount, List.length_cons, List.length_range']
  have hregular := hwritten.regular h.regular
  have hfirst : (v.written p [] (nameToFat roundFile) data).first .root = 2 := by
    rw [Volume.first, Volume.written_fs]
    exact hroot
  have hself := hregular.chain_singleton .root trivial
  rw [hfirst] at hself
  exact ⟨p, ⟨h.regular.wellFormed, .root, trivial, hchain, roundFile_ascii, htarget⟩,
    htaken, hexec, hregular, ⟨.root, .root, trivial, hfirst⟩, hself⟩

end EntropyOS.Fat32
