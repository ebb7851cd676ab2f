import EntropyOS.Fat32.Format

/-!
# Sessions

A session formats a fault-free device, mounts it and makes calls that all
succeed.  `Outcome` says what one such call can do; what holds in every state
of a session follows from it by induction.
-/

namespace EntropyOS.Fat32

open EntropyOS.Foundation

inductive Call where
  | writeFileIn (parent : Nat) (filename data : List UInt8)
  | createDirectoryIn (parent : Nat) (dirname : List UInt8)
  | deleteDirectoryIn (parent : Nat) (dirname : List UInt8)
  | deleteFile (filename : List UInt8)

namespace Call

def run : Call → Program System Int
  | writeFileIn parent filename data => Fat32.writeFileIn parent filename data
  | createDirectoryIn parent dirname => Fat32.createDirectoryIn parent dirname
  | deleteDirectoryIn parent dirname => Fat32.deleteDirectoryIn parent dirname
  | deleteFile filename => Fat32.deleteFile filename

/-- ASCII names, live parents, and a size that fits the `uint32_t`. -/
def Proper (v : Volume) : Call → Prop
  | writeFileIn parent filename data =>
      Ascii filename ∧ data.length < 4294967296 ∧ ∃ l, v.Directory parent l
  | createDirectoryIn parent dirname => Ascii dirname ∧ ∃ l, v.Directory parent l
  | deleteDirectoryIn parent dirname => Ascii dirname ∧ ∃ l, v.Directory parent l
  | deleteFile filename => Ascii filename

end Call

/-- The clusters below the end marks that are free or in the chain `old`. -/
def Volume.room (v : Volume) (old : List Nat) : Nat :=
  ((List.range' 2 v.fs.totalClusters).filter fun c =>
    c < eoc ∧ (v.link c = free ∨ c ∈ old)).length

/-- The call needs no cluster with a number that looks like an end mark. -/
def Call.HasRoom (v : Volume) : Call → Prop
  | writeFileIn parent filename data =>
      ∀ l old, v.Directory parent l → v.Held l (nameToFat filename) old →
        clustersFor data.length ≤ v.room old
  | createDirectoryIn _ _ => 1 ≤ v.room []
  | deleteDirectoryIn _ _ => True
  | deleteFile _ => True

/-- The entry with this name, if it is a directory, has no live entry. -/
def Volume.Childless (v : Volume) (parent : Nat) (name : Name) : Prop :=
  ∀ l p, v.Directory parent l → p ∈ places l → (v.entry p).InUse →
    (v.entry p).name = name → ∀ q, ¬ v.Child (.entry p) q

/-- The call neither deletes nor overwrites a directory that is not empty. -/
def Call.KeepsTree (v : Volume) : Call → Prop
  | writeFileIn parent filename _ => v.Childless parent (nameToFat filename)
  | createDirectoryIn _ _ => True
  | deleteDirectoryIn _ _ => True
  | deleteFile filename => v.Childless v.fs.rootDirCluster (nameToFat filename)

/-- The states of the sessions in which every call meets `ok`. -/
inductive Session (total : UInt64) (label : Option (List UInt8))
    (ok : Volume → Call → Prop) : System → Prop
  | mount {s s' s'' : System} :
      s.device.FaultFree → format total label s = some (0, s') →
      init s' = some (0, s'') → Session total label ok s''
  | call {s s' : System} {c : Call} :
      Session total label ok s → c.Proper (volumeOf s) → ok (volumeOf s) c →
      c.run s = some (0, s') → Session total label ok s'

/-! ## Room -/

private theorem take_lt_of_le_filter {l : List Nat} {bound count : Nat}
    (hsorted : l.Pairwise (· < ·))
    (h : count ≤ (l.filter (· < bound)).length) :
    (∀ c ∈ l.take count, c < bound) ∧ (l.take count).length = count := by
  induction l generalizing count with
  | nil => simpa [eq_comm] using h
  | cons a l ih =>
      obtain ⟨hhead, htail⟩ := List.pairwise_cons.mp hsorted
      cases count with
      | zero => simp
      | succ count =>
          by_cases ha : a < bound
          · rw [List.filter_cons_of_pos (by simpa using ha), List.length_cons] at h
            obtain ⟨hlow, hlength⟩ := ih htail (Nat.le_of_succ_le_succ h)
            rw [List.take_succ_cons]
            exact ⟨List.forall_mem_cons.mpr ⟨ha, hlow⟩, by simp [hlength]⟩
          · have hnone : (a :: l).filter (· < bound) = [] := by
              rw [List.filter_eq_nil_iff]
              intro c hc
              have hle : a ≤ c := by
                rcases List.mem_cons.mp hc with rfl | hc
                · exact le_rfl
                · exact (hhead c hc).le
              simp only [decide_eq_true_eq]
              omega
            simp [hnone] at h

theorem Volume.room_eq (v : Volume) (old : List Nat) :
    v.room old = ((v.release old).freeList.filter (· < eoc)).length := by
  simp only [Volume.room, Volume.freeList, List.filter_filter, Volume.release_fs,
    Volume.release_link]
  congr 1
  apply List.filter_congr
  intro c _
  by_cases hold : c ∈ old
  · simp [hold]
  · simp [hold]

theorem Volume.taken_of_room {v : Volume} {old : List Nat} {size : Nat}
    (h : clustersFor size ≤ v.room old) :
    (∀ c ∈ v.taken old size, c < eoc) ∧
      (v.taken old size).length = clustersFor size := by
  rw [Volume.room_eq] at h
  exact take_lt_of_le_filter (v.release old).freeList_sorted h

/-! ## One call -/

inductive Outcome (v : Volume) : Call → Volume → Prop
  | written {n : Node} {l old : List Nat} {p : Place}
      {filename data : List UInt8} :
      v.Reach n → v.IsDir n → v.Chain (v.first n) l → Ascii filename →
      data.length < 4294967296 → v.Target l (nameToFat filename) p old →
      (∀ c ∈ v.taken old data.length, c < eoc) →
      (v.taken old data.length).length = clustersFor data.length →
      Outcome v (.writeFileIn (v.first n) filename data)
        (v.written p old (nameToFat filename) data)
  | created {n : Node} {l rest : List Nat} {p : Place} {c : Nat}
      {dirname : List UInt8} :
      v.Reach n → v.IsDir n → v.Chain (v.first n) l → Ascii dirname →
      v.Target l (nameToFat dirname) p [] → ¬ (v.entry p).InUse →
      v.freeList = c :: rest → c < eoc →
      Outcome v (.createDirectoryIn (v.first n) dirname)
        (v.created p c (v.first n) (nameToFat dirname))
  | directoryRemoved {n : Node} {l old : List Nat} {p : Place}
      {dirname : List UInt8} :
      v.Reach n → v.IsDir n → v.Chain (v.first n) l → p ∈ places l →
      v.Named (nameToFat dirname) p → ¬ (v.entry p).IsDot →
      v.Chain (v.entry p).firstCluster old → v.IsDir (.entry p) →
      (∀ q ∈ places old, (v.entry q).InUse → (v.entry q).IsDot) →
      Outcome v (.deleteDirectoryIn (v.first n) dirname) (v.removed p old)
  | fileRemoved {l old : List Nat} {p : Place} {filename : List UInt8} :
      v.Chain (v.first .root) l → p ∈ places l →
      v.Named (nameToFat filename) p → ¬ (v.entry p).IsDot →
      v.Chain (v.entry p).firstCluster old →
      Outcome v (.deleteFile filename) (v.removed p old)

section Step

variable {v : Volume}

/-- A proper call with room fails and changes nothing, or has an outcome. -/
theorem Call.executes (hinfo : v.InfoApart) (hlayout : v.fs.Layout)
    (hv : v.Regular) {c : Call} (hproper : c.Proper v) (hroom : c.HasRoom v) :
    Executes v c.run (-1) v ∨ ∃ v', Executes v c.run 0 v' ∧ Outcome v c v' := by
  have hwf := hv.wellFormed
  cases c with
  | writeFileIn parent filename data =>
      obtain ⟨hascii, hsize, l, hdir⟩ := hproper
      rcases writeFileIn_cases filename hlayout hwf hdir with
        ⟨-, hfull⟩ | ⟨p, old, htarget, hwrite, -⟩
      · exact .inl (hfull data)
      · obtain ⟨hlow, hlength⟩ :=
          Volume.taken_of_room (hroom l old hdir htarget.held)
        have hexec := (hwrite data (fun c hc =>
          (hlow c (List.mem_of_mem_dropLast hc)).trans (by decide)) hlength).2 hinfo
        obtain ⟨n, hn, hisDir, rfl⟩ := hdir.live
        exact .inr ⟨_, hexec, .written hn hisDir hdir.chain hascii hsize htarget
          hlow hlength⟩
  | createDirectoryIn parent dirname =>
      obtain ⟨hascii, l, hdir⟩ := hproper
      rcases createDirectoryIn_cases dirname hinfo hlayout hwf hdir with
        ⟨-, hfail⟩ | ⟨p, c, rest, htarget, hunused, hfree, hexec⟩
      · exact .inl hfail
      · obtain ⟨n, hn, hisDir, rfl⟩ := hdir.live
        have hlow : c < eoc := by
          have hone : clustersFor 1 ≤ v.room [] := hroom
          obtain ⟨htaken, -⟩ := Volume.taken_of_room hone
          apply htaken
          have hrelease : v.release [] = v := rfl
          simp [Volume.taken, hrelease, hfree, clustersFor]
        exact .inr ⟨_, hexec, .created hn hisDir hdir.chain hascii htarget hunused
          hfree hlow⟩
  | deleteDirectoryIn parent dirname =>
      obtain ⟨-, l, hdir⟩ := hproper
      rcases deleteDirectoryIn_cases dirname hinfo hlayout hwf hdir hv.single with
        hfail | ⟨p, old, hp, hnamed, hold, hisDirP, hempty, hexec⟩
      · exact .inl hfail
      · obtain ⟨n, hn, hisDir, rfl⟩ := hdir.live
        exact .inr ⟨_, hexec, .directoryRemoved hn hisDir hdir.chain hp hnamed
          (not_isDot_of_name hnamed.2.2) hold hisDirP hempty⟩
  | deleteFile filename =>
      obtain ⟨l, hl⟩ := hwf.chain .root .root
      have hdir : v.Directory v.fs.rootDirCluster l :=
        ⟨⟨.root, .root, trivial, rfl⟩, hl⟩
      rcases deleteFile_cases filename hinfo hlayout hwf hdir with
        ⟨-, hfail⟩ | ⟨p, old, hp, hnamed, hold, hexec⟩
      · exact .inl hfail
      · exact .inr ⟨_, hexec, .fileRemoved hl hp hnamed
          (not_isDot_of_name hnamed.2.2) hold⟩

variable {v' : Volume} {c : Call}

theorem Outcome.change (hv : v.WellFormed) (h : Outcome v c v') :
    ∃ n l p old new, v.Change v' n l p old new := by
  cases h with
  | written hn hdir hl hascii _ htarget hlow _ =>
      exact ⟨_, _, _, _, _,
        Volume.written_change hv hn hdir hl hascii htarget hlow⟩
  | created hn hdir hl hascii htarget hunused hfree hlow =>
      exact ⟨_, _, _, _, _, Volume.created_change _ hv hn hdir hl hascii htarget
        hunused hfree hlow⟩
  | directoryRemoved hn hdir hl hp hnamed hdot hold =>
      exact ⟨_, _, _, _, _,
        Volume.removed_change hn hdir hl hp hnamed.1 hdot hold⟩
  | fileRemoved hl hp hnamed hdot hold =>
      exact ⟨_, _, _, _, _,
        Volume.removed_change .root trivial hl hp hnamed.1 hdot hold⟩

private theorem created_dots (hv : v.Regular) {n : Node} {l : List Nat}
    {p : Place} {c : Nat} {name : Name} {old new : List Nat} (hlow : c < eoc)
    (hpc : p.1 ≠ c)
    (h : v.Change (v.created p c (v.first n) name) n l p old new) :
    (v.created p c (v.first n) name).Dots n p := by
  simp only [eoc] at hlow
  have hp := (mem_places.mp h.mem).2
  have hentry : (v.created p c (v.first n) name).entry p =
      .make name attrDirectory c 0 := by
    rw [Volume.created_entry hp, if_pos rfl]
  have hfirst : ((v.created p c (v.first n) name).entry p).firstCluster = c := by
    rw [hentry]
    exact DirEntry.make_firstCluster _ _ _ (by omega)
  have hdots : ∀ i < 128, (v.created p c (v.first n) name).entry (c, i) =
      entryAt (dotEntries c (if v.first n = v.fs.rootDirCluster then 0
        else v.first n)) i := by
    intro i hi
    rw [Volume.created_entry hi, if_neg (fun heq => hpc (by rw [← heq])),
      if_neg (Ne.symm hpc), if_pos rfl]
  have hbits : attrDirectory &&& attrDirectory ≠ 0 := by decide
  constructor
  · rw [hfirst, hdots 0 (by decide), dotEntries_zero]
    exact ⟨rfl, hbits, DirEntry.make_firstCluster _ _ _ (by omega)⟩
  · rw [hfirst, hdots 1 (by decide), dotEntries_one]
    refine ⟨rfl, hbits, ?_⟩
    have hn := h.apart hv.wellFormed
    cases n with
    | root =>
        rw [if_pos (show v.first .root = v.fs.rootDirCluster from rfl)]
        rfl
    | entry q =>
        have hne : v.first (.entry q) ≠ v.fs.rootDirCluster := by
          intro heq
          exact Node.noConfusion (hv.eq_root hn.reach h.isDir heq)
        have hup := h.first_apart hv.wellFormed hn
        rw [if_neg hne]
        refine (DirEntry.make_firstCluster _ _ _ ?_).trans hup.symm
        exact DirEntry.firstCluster_lt _

theorem Outcome.regular (hv : v.Regular) (h : Outcome v c v') : v'.Regular := by
  have hwf := hv.wellFormed
  cases h with
  | @written n l old p filename data hn hdir hl hascii hsize htarget hlow
      hlength =>
      have hchange := Volume.written_change hwf hn hdir hl hascii htarget hlow
      have hp := (mem_places.mp htarget.mem).2
      have hentry := v.written_entry p old (nameToFat filename) data hp
      rw [if_pos rfl] at hentry
      refine hchange.regular hv (fun _ _ => ?_) fun _ hisDir => ?_
      · rw [hentry, hlength, Volume.fileEntry_fileSize _ _ _ hsize]
      · rw [Volume.IsDir, hentry] at hisDir
        exact absurd hisDir (Volume.make_archive_not_isDir _ _ _)
  | @created n l rest p c dirname hn hdir hl hascii htarget hunused hfree hlow =>
      have hchange := Volume.created_change (v.first n) hwf hn hdir hl hascii
        htarget hunused hfree hlow
      have hp := (mem_places.mp htarget.mem).2
      have hmem : c ∈ v.freeList := by simp [hfree]
      have hpc : p.1 ≠ c := by
        intro heq
        apply hl.link_ne_free (mem_places.mp htarget.mem).1
        rw [heq]
        exact (Volume.mem_freeList.mp hmem).2
      refine hchange.regular hv (fun _ hnot => ?_) fun _ _ => ?_
      · rw [Volume.IsDir, Volume.created_entry hp, if_pos rfl] at hnot
        exact absurd (Volume.make_directory_isDir _ _ _) hnot
      · exact ⟨rfl, created_dots hv hlow hpc hchange⟩
  | directoryRemoved hn hdir hl hp hnamed hdot hold =>
      have hchange := Volume.removed_change hn hdir hl hp hnamed.1 hdot hold
      have hgone := fun old => v.removed_isDeleted old hp
      exact hchange.regular hv (fun huse => absurd (hgone _) huse.2)
        fun huse => absurd (hgone _) huse.2
  | fileRemoved hl hp hnamed hdot hold =>
      have hchange := Volume.removed_change .root trivial hl hp hnamed.1 hdot hold
      have hgone := fun old => v.removed_isDeleted old hp
      exact hchange.regular hv (fun huse => absurd (hgone _) huse.2)
        fun huse => absurd (hgone _) huse.2

theorem Outcome.noLost (hv : v.Regular) (h : Outcome v c v')
    (hkeeps : c.KeepsTree v) (hlost : v.NoLost) : v'.NoLost := by
  have hwf := hv.wellFormed
  cases h with
  | written hn hdir hl hascii _ htarget hlow _ =>
      have hchange := Volume.written_change hwf hn hdir hl hascii htarget hlow
      refine hchange.noLost hwf hlost fun huse => ?_
      exact hkeeps _ _ ⟨⟨_, hn, hdir, rfl⟩, hl⟩ htarget.mem huse
        (htarget.inUse_iff.mp huse).2.1
  | @created n _ _ _ _ _ hn hdir hl hascii htarget hunused hfree hlow =>
      have hchange := Volume.created_change (v.first n) hwf hn hdir hl hascii
        htarget hunused hfree hlow
      exact hchange.noLost hwf hlost fun huse => absurd huse hunused
  | directoryRemoved hn hdir hl hp hnamed hdot hold hisDir hempty =>
      have hchange := Volume.removed_change hn hdir hl hp hnamed.1 hdot hold
      refine hchange.noLost hwf hlost fun _ q hchild => ?_
      obtain ⟨k, hk, hq⟩ := hchild.mem
      obtain rfl := hk.unique hold
      exact hchild.notDot (hempty q hq hchild.inUse)
  | fileRemoved hl hp hnamed hdot hold =>
      have hchange := Volume.removed_change .root trivial hl hp hnamed.1 hdot hold
      refine hchange.noLost hwf hlost fun huse => ?_
      exact hkeeps _ _ ⟨⟨.root, .root, trivial, rfl⟩, hl⟩ hp huse hnamed.2.2

end Step

/-! ## The start -/

namespace Volume.Fresh

variable {v : Volume} {fatSize clusters : Nat}

theorem chain_root (h : v.Fresh fatSize clusters) (hroot : 1 ≤ clusters) :
    v.Chain (v.first .root) [2] := by
  have hrange : v.fs.InRange 2 := by
    simp only [h.fs, Fs.InRange, newFs]
    omega
  have hlink : v.link 2 = 0x0FFFFFFF := h.link 2 hrange
  rw [Volume.first, h.fs]
  refine ⟨by simpa using hrange, by simp, 0x0FFFFFFF, ?_, by simp [eoc]⟩
  refine .step (by simp [Live, newFs, eoc]) ?_
  change Walk v.link Live (v.link 2) [] 0x0FFFFFFF
  rw [hlink]
  exact .stop (by simp [Live, eoc])

theorem entry_isEnd (h : v.Fresh fatSize clusters) {q : Place}
    (hq : q ∈ places [2]) : (v.entry q).IsEnd := by
  have hcluster := List.mem_singleton.mp (mem_places.mp hq).1
  have hzero : v.data q.1 = fun _ => 0 := by
    rw [hcluster]
    exact funext h.root
  rw [Volume.entry, hzero]
  exact entryAt_zero_isEnd _

theorem reach_iff (h : v.Fresh fatSize clusters) (hroot : 1 ≤ clusters)
    {n : Node} : v.Reach n ↔ n = .root := by
  constructor
  · intro hn
    induction hn with
    | root => rfl
    | child _ hchild ih =>
        subst ih
        obtain ⟨l, hl, hp⟩ := hchild.mem
        obtain rfl := hl.unique (h.chain_root hroot)
        exact absurd (h.entry_isEnd hp) hchild.inUse.1
  · rintro rfl
    exact .root

theorem reserved (h : v.Fresh fatSize clusters) : 8 ≤ v.fs.fatBeginLba := by
  rw [h.fs]
  exact Nat.le_of_ble_eq_true rfl

theorem regular (h : v.Fresh fatSize clusters) (hroot : 1 ≤ clusters) :
    v.Regular := by
  have hchain := h.chain_root hroot
  constructor
  case wellFormed =>
    constructor
    case chain =>
      intro n hn
      rw [h.reach_iff hroot] at hn
      subst hn
      exact ⟨[2], hchain⟩
    case disjoint =>
      intro n m l k hn hm hne
      rw [h.reach_iff hroot] at hn hm
      exact absurd (hn.trans hm.symm) hne
    case orderly =>
      intro n l hn _ hl
      rw [h.reach_iff hroot] at hn
      subst hn
      obtain rfl := hl.unique hchain
      constructor
      · exact fun p hp q _ huse => absurd (h.entry_isEnd hp) huse.1
      · refine List.Pairwise.imp_of_mem ?_
          (List.pairwise_of_forall (fun _ _ => trivial))
        exact fun _ hq _ _ huse => huse.1 (h.entry_isEnd hq)
  case sized =>
    intro p l hp
    rw [h.reach_iff hroot] at hp
    exact absurd hp (by simp)
  case single =>
    intro n l hn _ hl
    rw [h.reach_iff hroot] at hn
    subst hn
    obtain rfl := hl.unique hchain
    rfl
  case dots =>
    intro n p hn hchild
    have hp := (h.reach_iff hroot).mp (.child hn hchild)
    exact absurd hp (by simp)

theorem noLost (h : v.Fresh fatSize clusters) (hroot : 1 ≤ clusters) :
    v.NoLost := by
  intro c hc hlink
  rw [h.link c hc] at hlink
  have htwo : c = 2 := by
    by_contra hne
    exact hlink (if_neg hne)
  exact ⟨.root, [2], .root, h.chain_root hroot, by simp [htwo]⟩

end Volume.Fresh

/-! ## Whole sessions -/

theorem Represents.outcome {s s' : System} {v : Volume} (hrep : Represents s v)
    (hreserved : 8 ≤ v.fs.fatBeginLba) (hv : v.Regular) {c : Call} (hproper : c.Proper v)
    (hroom : c.HasRoom v) (hrun : c.run s = some (0, s')) :
    Represents s' (volumeOf s') ∧ Outcome v c (volumeOf s') := by
  have hinfo := Volume.infoApart_of_reserved hrep.layout hreserved
  rcases Call.executes hinfo hrep.layout hv hproper hroom with
    hfail | ⟨v', hexec, houtcome⟩
  · exact absurd (hfail.deterministic hrep hrun).1 (by decide)
  · have hrep' := (hexec.deterministic hrep hrun).2
    obtain ⟨-, -, rfl⟩ := represents_iff.mp hrep'
    exact ⟨hrep', houtcome⟩

private theorem Session.invariant_reserved {total : UInt64}
    {label : Option (List UInt8)} {ok : Volume → Call → Prop} {P : Volume → Prop}
    (h : Formattable total.toNat) (hroom : ∀ v c, ok v c → c.HasRoom v)
    (hstart : ∀ v, v.Fresh (formatFatSize total.toNat)
      (formatClusters total.toNat) → P v)
    (hstep : ∀ v c v', v.Regular → P v → ok v c → Outcome v c v' → P v')
    {s : System} (hs : Session total label ok s) :
    Represents s (volumeOf s) ∧ 8 ≤ (volumeOf s).fs.fatBeginLba ∧
      (volumeOf s).Regular ∧ P (volumeOf s) := by
  induction hs with
  | mount hfault hformat hinit =>
      obtain ⟨s', s'', hformat', hinit', hrep, hfresh⟩ :=
        mount_executes hfault h label
      rw [hformat] at hformat'
      cases hformat'
      rw [hinit] at hinit'
      cases hinit'
      exact ⟨hrep, hfresh.reserved, hfresh.regular h.root, hstart _ hfresh⟩
  | call _ hproper hok hrun ih =>
      obtain ⟨hrep, hreserved, hregular, hP⟩ := ih
      obtain ⟨hrep', houtcome⟩ :=
        hrep.outcome hreserved hregular hproper (hroom _ _ hok) hrun
      obtain ⟨n, l, p, old, new, hchange⟩ := houtcome.change hregular.wellFormed
      exact ⟨hrep', hchange.fs ▸ hreserved, houtcome.regular hregular,
        hstep _ _ _ hregular hP hok houtcome⟩

theorem Session.invariant {total : UInt64} {label : Option (List UInt8)}
    {ok : Volume → Call → Prop} {P : Volume → Prop}
    (h : Formattable total.toNat) (hroom : ∀ v c, ok v c → c.HasRoom v)
    (hstart : ∀ v, v.Fresh (formatFatSize total.toNat)
      (formatClusters total.toNat) → P v)
    (hstep : ∀ v c v', v.Regular → P v → ok v c → Outcome v c v' → P v')
    {s : System} (hs : Session total label ok s) :
    Represents s (volumeOf s) ∧ (volumeOf s).Regular ∧ P (volumeOf s) := by
  obtain ⟨hrep, -, hrest⟩ := hs.invariant_reserved h hroom hstart hstep
  exact ⟨hrep, hrest⟩

theorem Session.represents {total : UInt64} {label : Option (List UInt8)}
    {ok : Volume → Call → Prop} (h : Formattable total.toNat)
    (hroom : ∀ v c, ok v c → c.HasRoom v) {s : System}
    (hs : Session total label ok s) :
    Represents s (volumeOf s) ∧ (volumeOf s).Regular := by
  obtain ⟨hrep, hregular, -⟩ := hs.invariant (P := fun _ => True) h hroom
    (fun _ _ => trivial) fun _ _ _ _ _ _ _ => trivial
  exact ⟨hrep, hregular⟩

/-- The 32 sectors that formatting puts before the FAT stay there. -/
theorem Session.reserved {total : UInt64} {label : Option (List UInt8)}
    {ok : Volume → Call → Prop} (h : Formattable total.toNat)
    (hroom : ∀ v c, ok v c → c.HasRoom v) {s : System}
    (hs : Session total label ok s) : 8 ≤ (volumeOf s).fs.fatBeginLba :=
  (hs.invariant_reserved (P := fun _ => True) h hroom (fun _ _ => trivial)
    fun _ _ _ _ _ _ _ => trivial).2.1

end EntropyOS.Fat32
