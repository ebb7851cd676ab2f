import EntropyOS.Fat32.Transfers
import EntropyOS.Fat32.RoundTrip
import EntropyOS.Fat32.Removing

/-!
# Writes that report success

What the data loop could not link is stored, and lost to every reader.
-/

namespace EntropyOS.Fat32

open EntropyOS.Foundation

/-! ## The end of the call -/

def StaysReady (s s' : System) : Prop := ∀ v, Ready s v → Ready s' v

instance : Std.Refl StaysReady := ⟨fun _ _ h => h⟩

instance : IsTrans System StaysReady := ⟨fun _ _ _ h h' v hs => h' v (h v hs)⟩

private theorem flushIfSata_still (warning : String) :
    Within StaysReady (flushIfSata warning) := by
  have hfails : Within StaysReady (transferFails 0) := by
    intro s fails s' h
    cases h
    exact fun v hs => ⟨hs.present, hs.layout, hs.volume⟩
  have htext : Within StaysReady (text warning) :=
    Within.modify fun _ v hs => ⟨hs.present, hs.layout, hs.volume⟩
  have hflush : ∀ count, Within StaysReady (flushCache warning count) := by
    intro count
    induction count with
    | zero => exact Within.pure _
    | succ count ih =>
        refine Within.bind (Within.bind Within.get fun s => ?_) fun status =>
          Within.ite (Within.bind htext fun _ => ih) ih
        refine Within.ite ?_ (Within.pure _)
        exact Within.bind hfails fun _ => Within.ite (Within.pure _) (Within.pure _)
  exact Within.bind Within.get fun s => Within.ite (hflush 5) (Within.pure _)

section Storing

variable {s s' t : System} {v : Volume} {name : Name} {data : List UInt8} {p : Place}

/-- What follows the directory write is about the FSInfo sectors and the cache. -/
private theorem finishCall_ready {nextFree : Nat} {warning : String} {status : Int}
    (hs : Ready s v) (hinfo : v.InfoApart)
    (hrun : finishCall nextFree warning s = some (status, s')) :
    ∃ info, Ready s' (v.setInfo info) := by
  obtain ⟨_, t, hupdate, hrun⟩ := Program.exists_of_bind hrun
  obtain ⟨_, u, hflush, hrun⟩ := Program.exists_of_bind hrun
  obtain ⟨-, rfl⟩ := Prod.mk.inj (Option.some.inj hrun)
  obtain ⟨n, info, hattempt⟩ :=
    updateFsinfoIfKnown_attempts (s := s) (n := 0) hinfo nextFree
  have ht := (hs.step hattempt hupdate).2
  exact ⟨info, flushIfSata_still _ _ _ _ hflush _ ht⟩

/--
What a write that succeeds leaves: the entry at `p`, and clusters that hold the
data, of which the first ones are linked.
-/
structure Volume.Persists (v v' : Volume) (name : Name) (data : List UInt8)
    (p : Place) (ds good : List Nat) : Prop where
  fs : v'.fs = v.fs
  link : ∀ c, v.fs.InRange c → v.link c ≠ free → v'.link c = v.link c
  entry : v'.entry p = DirEntry.make name attrArchive (ds.headD 0) data.length
  others : ∀ q : Place, v.fs.InRange q.1 → v.link q.1 ≠ free → q.2 < 128 → q ≠ p →
    v'.entry q = v.entry q
  length : ds.length = clustersFor data.length
  inRange : ∀ c ∈ ds, v.fs.InRange c
  chain : ∃ last, Walk v'.link Live (ds.headD 0) good last
  linked : good <+: ds
  bytes : ∀ k < data.length,
    v'.data (ds.getD (k / 4096) 0) (k % 4096) = Buf.ofList data k

private theorem Volume.Fills.persists {x v' : Volume} {ds good : List Nat}
    {last : Nat} (h : v.Fills x ds data 0)
    (hused : v.link p.1 ≠ free) (hindex : p.2 < 128)
    (hwalk : Walk x.link Live (ds.headD 0) good last) (hgood : good <+: ds)
    (hfs : v'.fs = v.fs) (hlink : v'.link = x.link)
    (hdata : v'.data = (x.setData p.1 (setEntry (v.data p.1) p.2
      (DirEntry.make name attrArchive (ds.headD 0) data.length))).data) :
    v.Persists v' name data p ds good := by
  have hne : ∀ c ∈ ds, c ≠ p.1 := by
    rintro c hc rfl
    exact hused (h.taken _ hc).2
  have hentry : ∀ q : Place, q.2 < 128 → v'.entry q =
      if q.1 = p.1 then entryAt (setEntry (v.data p.1) p.2
        (DirEntry.make name attrArchive (ds.headD 0) data.length)) q.2
      else x.entry q := by
    intro q hqi
    rw [← Volume.setData_entry x p.1 _ hqi]
    rw [Volume.entry, Volume.entry, hdata]
  constructor
  case fs => exact hfs
  case link =>
    intro c hc hlinked
    have hzero : c ≠ 0 := by
      have := hc.1
      omega
    rw [hlink, h.link c hlinked hzero]
  case entry => rw [hentry p hindex, if_pos rfl, entryAt_setEntry_self]
  case others =>
    intro q hq hlinked hqi hqp
    rw [hentry q hqi]
    split
    · next heq =>
        have hindexes : q.2 ≠ p.2 := fun hsame => hqp (Prod.ext heq hsame)
        rw [entryAt_setEntry_ne _ _ hindexes, Volume.entry, heq]
    · rw [Volume.entry, Volume.entry, h.others q.1 hq hlinked]
  case length => exact h.length
  case inRange => exact fun c hc => (h.taken c hc).1
  case chain => exact ⟨last, hlink ▸ hwalk⟩
  case linked => exact hgood
  case bytes =>
    intro k hk
    have hindexed : k / 4096 < ds.length := by
      rw [h.length, clustersFor]
      omega
    have hmem : ds.getD (k / 4096) 0 ∈ ds := by
      rw [List.getD_eq_getElem?_getD, List.getElem?_eq_getElem hindexed]
      exact List.getElem_mem hindexed
    rw [hdata, ← h.bytes k hk]
    exact congrFun (Function.update_of_ne (hne _ hmem) _ x.data) _

/-- What is stored once the old chain is given back. -/
private theorem storeFile_ready (hs : Ready t v) (hinfo : v.InfoApart)
    (hp : v.fs.InRange p.1) (hused : v.link p.1 ≠ free) (hindex : p.2 < 128)
    (hsmall : v.fs.totalClusters + 2 ≤ 268435456 ∨ LinksStored data 0 t)
    (hrun : storeFile name data (v.slotAt p) t = some (0, s')) :
    ∃ v' ds good, Ready s' v' ∧ v.Persists v' name data p ds good ∧
      (good = ds ↔ LinksStored data 0 t) := by
  obtain ⟨result, u, hdata, hrun⟩ := Program.exists_of_bind hrun
  cases result with
  | none => simp at hrun
  | some result =>
      obtain ⟨x, ds, good, last, hu, hfills, hfirst, hwalk, hgood, hcomplete⟩ :=
        writeData_ready hs (.inl rfl) hsmall hdata
      obtain ⟨first, final⟩ := result
      obtain rfl : first = ds.headD 0 := hfirst
      obtain ⟨status, w, hwrite, hrun⟩ := Program.exists_of_bind hrun
      have hpx : x.fs.InRange p.1 := by
        rw [hfills.fs]
        exact hp
      by_cases hstatus : status = 0
      · have hw := hu.writeCluster hpx hwrite hstatus
        rw [if_neg (not_not.mpr hstatus)] at hrun
        obtain ⟨info, hs'⟩ :=
          finishCall_ready hw ((hfills.info hinfo).setData _ _) hrun
        exact ⟨_, ds, good, hs', hfills.persists hused hindex hwalk hgood
          hfills.fs rfl rfl, hcomplete⟩
      · rw [if_pos hstatus] at hrun
        obtain ⟨_, _, -, hrun⟩ := Program.exists_of_bind hrun
        simp at hrun

end Storing

/-! ## The directory -/

/-- The name is not found before `p`. -/
def Volume.Leads (v : Volume) (name : Name) (ps : List Place) (p : Place) : Prop :=
  ∃ before after, ps = before ++ p :: after ∧
    ∀ q ∈ before, ¬ (v.entry q).IsEnd ∧
      ((v.entry q).InUse → (v.entry q).name ≠ name)

namespace Volume

variable {v v' : Volume} {name : Name} {ps : List Place} {p : Place}

theorem Leads.lookup (h : v.Leads name ps p) (hnodup : ps.Nodup)
    (hothers : ∀ q ∈ ps, q ≠ p → v'.entry q = v.entry q) (hnamed : v'.Named name p) :
    v'.lookup name ps = some p := by
  obtain ⟨before, after, rfl, hbefore⟩ := h
  induction before with
  | nil =>
      obtain ⟨huse, hvolume, hname⟩ := hnamed
      rw [List.nil_append, Volume.lookup, if_neg huse.1, if_neg huse.2,
        if_neg hvolume, if_pos hname]
  | cons q before ih =>
      obtain ⟨hq, hnodup⟩ := List.nodup_cons.mp hnodup
      obtain ⟨hend, hname⟩ := hbefore q (by simp)
      have hsame := hothers q (by simp) fun h => hq (by simp [h])
      have hrest := ih (fun r hr => hbefore r (List.mem_cons_of_mem _ hr)) hnodup
        fun r hr => hothers r (List.mem_cons_of_mem _ hr)
      rw [List.cons_append, Volume.lookup, hsame, if_neg hend, hrest]
      by_cases hdeleted : (v.entry q).IsDeleted
      · rw [if_pos hdeleted]
      · rw [if_neg hdeleted, if_neg (hname ⟨hend, hdeleted⟩)]
        split
        · rfl
        · rfl

/-- The driver stores behind the entries that have other names. -/
theorem leads_of_existing (horder : v.Orderly ps) (hnodup : ps.Nodup) (hp : p ∈ ps)
    (huse : (v.entry p).InUse) (hname : (v.entry p).name = name) :
    v.Leads name ps p := by
  obtain ⟨before, after, rfl⟩ := List.append_of_mem hp
  refine ⟨before, after, rfl, fun q hq => ⟨fun hend => ?_, fun hq' hsame => ?_⟩⟩
  · exact (List.pairwise_append.mp horder.ended).2.2 q hq p (by simp) hend huse
  · have heq := horder.unique q (by simp [hq]) p (by simp) hq' huse
      (hsame.trans hname.symm)
    subst heq
    exact (List.disjoint_of_nodup_append hnodup) hq (by simp)

theorem leads_of_firstFree {front : List Place} (hfront : front <+: ps)
    (hfirst : v.FirstFree front p)
    (hnames : ∀ q ∈ front, (v.entry q).InUse → (v.entry q).name ≠ name) :
    v.Leads name ps p := by
  obtain ⟨before, after, rfl, -, hused⟩ := hfirst
  obtain ⟨rest, rfl⟩ := hfront
  refine ⟨before, after ++ rest, by simp, fun q hq => ?_⟩
  exact ⟨(hused q hq).1, hnames q (by simp [hq])⟩

end Volume

/-! ## The call -/

/-- The same machine, on which no transfer fails any more. -/
def repaired (s : System) : System :=
  { s with device := { s.device with faults := fun _ _ => false } }

theorem Ready.repaired {s : System} {v : Volume} (h : Ready s v) :
    Represents (repaired s) v :=
  represents_iff.mpr ⟨⟨h.present, rfl⟩, h.layout, h.volume⟩

/-- Once the device works, the file reads as the data. -/
def ReadsBack (s : System) (parent : Nat) (filename data : List UInt8) : Prop :=
  ∀ (out : Buf) (maxSize bytesRead : Nat), data.length ≤ maxSize →
    ∃ r t, readFileIn parent filename out maxSize bytesRead (repaired s) =
      some (r, t) ∧ r.status = 0 ∧ r.bytesRead = data.length ∧
      ∀ k < data.length, r.out k = Buf.ofList data k

/--
No link between two clusters of the file is lost: the walk over the directory
`l` is followed by the freeing of the chain it finds, and that by the data loop.
-/
def FileLinked (s : System) (l : List Nat) (filename data : List UInt8) : Prop :=
  let v := volumeOf s
  let name := nameToFat filename
  let cs := seen s v.fs 0 l
  let n := v.slotReads skipNone name cs none
  let rounds := clustersFor data.length
  match v.choose skipNone name (places cs) none with
  | .existing p => ∀ old, v.Chain (v.entry p).firstCluster old →
      RoundsLinked s v.fs rounds (unlinked s v.fs old n v.link).1
        (unlinked s v.fs old n v.link).2 0
  | .free _ => RoundsLinked s v.fs rounds n v.link 0

section Call

variable {s s' : System} {v v' : Volume} {parent last : Nat} {l ds good : List Nat}
  {filename data : List UInt8} {p : Place}

/-- A file is read as far as its clusters are linked. -/
theorem readsBack_iff (hs' : Ready s' v') (hwalk : Walk v'.link Live parent l last)
    (hrange : ∀ c ∈ l, v'.fs.InRange c)
    (hlookup : v'.lookup (nameToFat filename) (places l) = some p)
    (hstored : v.Persists v' (nameToFat filename) data p ds good)
    (hsize : data.length < 4294967296) :
    ReadsBack s' parent filename data ↔ good = ds := by
  have hlayout := hs'.layout_eq
  have hclusters := hlayout.clustersEnd
  have hfs := hstored.fs
  have hlength := hstored.length
  have hfirst : (v'.entry p).firstCluster = ds.headD 0 := by
    rw [hstored.entry]
    refine DirEntry.make_firstCluster _ _ _ ?_
    cases ds with
    | nil => decide
    | cons c ds =>
        have := (hstored.inRange c (by simp)).2
        rw [List.headD_cons]
        rw [← hfs] at this
        omega
  have hfileSize : (v'.entry p).fileSize.toNat = data.length := by
    rw [hstored.entry]
    simp only [DirEntry.make, UInt32.toNat_ofNat']
    exact Nat.mod_eq_of_lt hsize
  obtain ⟨final, hchain⟩ := hstored.chain
  rw [← hfirst] at hchain
  have hgood : ∀ c ∈ good, v'.fs.InRange c := by
    intro c hc
    rw [hfs]
    exact hstored.inRange c (hstored.linked.subset hc)
  have hread := readFileIn_found hlayout hwalk hrange hlookup hchain hgood
  rw [hfileSize] at hread
  constructor
  · intro hback
    by_contra hne
    have hshort : good.length < ds.length := by
      refine lt_of_le_of_ne hstored.linked.length_le fun h => hne ?_
      exact hstored.linked.eq_of_length h
    have hlt : 4096 * good.length < data.length := by
      rw [hlength, clustersFor] at hshort
      omega
    -- the first byte behind the linked clusters is the caller's
    obtain ⟨r, t, hrun, -, -, hbytes⟩ := hback
      (fun _ => Buf.ofList data (4096 * good.length) + 1) data.length 0 le_rfl
    obtain ⟨rfl, -⟩ := (hread _ _ _).deterministic hs'.repaired hrun
    have hbyte := hbytes _ hlt
    simp only [Volume.gather] at hbyte
    rw [if_neg (by omega)] at hbyte
    simp at hbyte
  · rintro rfl out maxSize bytesRead hmax
    obtain ⟨t, hrun, -⟩ := hread out maxSize bytesRead _ hs'.repaired
    refine ⟨_, t, hrun, rfl, Nat.min_eq_left hmax, fun k hk => ?_⟩
    rw [Nat.min_eq_left hmax]
    have hroom : data.length ≤ 4096 * good.length := by
      rw [hlength, clustersFor]
      omega
    simp only [Volume.gather]
    rw [if_pos (by omega), Nat.sub_zero]
    exact hstored.bytes k hk

/-- Where the file goes, and what the call gives back before it stores anything. -/
private theorem scan_during (hs : s.Present) (hlayout : s.fat32.fs.Layout)
    (hwf : (volumeOf s).WellFormed) (hdir : (volumeOf s).Directory parent l)
    (hrun : writeFileIn parent filename data s = some (0, s')) :
    ∃ p t w m, p ∈ places l ∧ (volumeOf s).Leads (nameToFat filename) (places l) p ∧
      During s m w t ∧ (FileLinked s l filename data ↔
        RoundsLinked s w.fs (clustersFor data.length) m w.link 0) ∧
      w.fs = (volumeOf s).fs ∧ w.data = (volumeOf s).data ∧
      (∀ c ∈ l, w.link c = (volumeOf s).link c) ∧
      ((volumeOf s).InfoApart → w.InfoApart) ∧
      storeFile (nameToFat filename) data ((volumeOf s).slotAt p) t = some (0, s') := by
  have hstart := During.start hs hlayout
  unfold FileLinked
  generalize volumeOf s = v at *
  have horder := hdir.orderly hwf
  obtain ⟨last, hwalk, -⟩ := hdir.chain.ends
  unfold writeFileIn at hrun
  rw [Program.bind_of_some (getFs_apply s), hlayout.initialized] at hrun
  obtain ⟨search, u, hfind, hrun⟩ := Program.exists_of_bind hrun
  have hread : search ≠ .unreadable := by
    rintro rfl
    simp at hrun
  obtain ⟨rfl, hu⟩ :=
    findSlot_seen none hstart hwalk hdir.chain.inRange hfind hread
  rw [Nat.zero_add, Option.map_none] at hu
  have hfront : places (seen s v.fs 0 l) <+: places l := by
    obtain ⟨rest, hrest⟩ := seen_prefix s v.fs 0 l
    exact ⟨places rest, by rw [places, places, ← List.flatMap_append, hrest, ← places]⟩
  simp only
  cases hchoice : v.choose skipNone (nameToFat filename) (places (seen s v.fs 0 l))
      none with
  | existing p =>
      obtain ⟨hp, huse, hname⟩ := Volume.choose_existing hchoice
      have hmem := hfront.subset hp
      rw [hchoice] at hrun
      obtain ⟨_, t, hfree, hstore⟩ := Program.exists_of_bind hrun
      -- the old chain shares no cluster with the directory
      obtain ⟨n, hn, hisDir, rfl⟩ := hdir.live
      have hreach : v.Reach (.entry p) := .child hn
        ⟨hisDir, ⟨l, hdir.chain, hmem⟩, huse, not_isDot_of_name hname⟩
      obtain ⟨old, hold⟩ := hwf.chain _ hreach
      have hapart := (hwf.apart_of_mem hn hdir.chain hmem).ne
      have hdisjoint := hwf.disjoint n (.entry p) l old hn hreach hapart hdir.chain hold
      have hrange : ∀ c ∈ old, c < v.fs.totalClusters + 2 :=
        fun c hc => (hold.inRange c hc).2
      obtain ⟨last', hwalk', -⟩ := hold.ends
      obtain ⟨w, hfreed, hfs, hlink⟩ := freeChain_relinks (s := s)
        (n := v.slotReads skipNone (nameToFat filename) (seen s v.fs 0 l) none)
        hwalk' hrange
      have ht := (hfreed.deterministic hu hfree).2
      obtain ⟨w', hw', hchange⟩ := freeChain_ready hu.ready hwalk' hrange hfree
      obtain rfl : w = w' := ht.volume_eq.symm.trans hw'.volume
      refine ⟨p, t, w, _, hmem, Volume.leads_of_existing horder
        (places_nodup hdir.chain.nodup) hmem huse hname, ht, ?_, hchange.fs,
        hchange.data, fun c hc => hchange.link c fun h => hdisjoint hc h, hchange.info,
        hstore⟩
      rw [hfs, hlink]
      constructor
      · exact fun hlinked => hlinked old hold
      · intro hlinked old' hold'
        rwa [hold'.unique hold]
  | free slot =>
      rw [hchoice] at hrun
      obtain ⟨hnames, -, -, hfirst⟩ := Volume.choose_free
        (horder.of_sublist hfront.sublist) (skipsOthers_none v _ _) hchoice
      cases slot with
      | none =>
          obtain ⟨_, _, -, hrun⟩ := Program.exists_of_bind hrun
          simp at hrun
      | some p =>
          have hplace := hfirst rfl p rfl
          have hp : p ∈ places (seen s v.fs 0 l) := by
            obtain ⟨before, after, heq, -⟩ := hplace
            simp [heq]
          exact ⟨p, u, v, _, hfront.subset hp,
            Volume.leads_of_firstFree hfront hplace hnames, hu, Iff.rfl, rfl, rfl,
            fun _ _ => rfl, id, hrun⟩

private theorem readsBack_iff_linked (hs : s.Present) (hlayout : s.fat32.fs.Layout)
    (hinfo : (volumeOf s).InfoApart) (hwf : (volumeOf s).WellFormed)
    (hdir : (volumeOf s).Directory parent l) (hascii : Ascii filename)
    (hsize : data.length < 4294967296)
    (hrun : writeFileIn parent filename data s = some (0, s'))
    (hsmall : s.fat32.fs.totalClusters + 2 ≤ 268435456 ∨
      FileLinked s l filename data) :
    ReadsBack s' parent filename data ↔ FileLinked s l filename data := by
  have hvfs : (volumeOf s).fs = s.fat32.fs := rfl
  obtain ⟨p, t, w, m, hp, hleads, ht, hrounds, hfs, hdata, hlink, hkept, hstore⟩ :=
    scan_during hs hlayout hwf hdir hrun
  have hwinfo := hkept hinfo
  generalize volumeOf s = v at *
  obtain ⟨hmem, hindex⟩ := mem_places.mp hp
  have hslot : v.slotAt p = w.slotAt p := by
    rw [Volume.slotAt, Volume.slotAt, hdata]
  rw [hslot] at hstore
  have hused : ∀ c ∈ l, w.fs.InRange c ∧ w.link c ≠ free := by
    intro c hc
    rw [hfs, hlink c hc]
    exact ⟨hdir.chain.inRange c hc, hdir.chain.link_ne_free hc⟩
  have hlinks : FileLinked s l filename data ↔ LinksStored data 0 t := by
    rw [hrounds]
    obtain ⟨result, u, hloop, hrest⟩ := Program.exists_of_bind hstore
    cases result with
    | none => simp at hrest
    | some result => exact (linksStored_iff ht (.inl rfl) hloop).symm
  rw [hlinks] at hsmall ⊢
  rw [← hvfs, ← hfs] at hsmall
  obtain ⟨hpRange, hpLink⟩ := hused p.1 hmem
  obtain ⟨v', ds, good, hs', hstored, hcomplete⟩ :=
    storeFile_ready ht.ready hwinfo hpRange hpLink hindex hsmall hstore
  rw [← hcomplete]
  -- the directory is where it was
  obtain ⟨last, hwalk, -⟩ := hdir.chain.ends
  have hwalk' : Walk v'.link Live parent l last := by
    refine hwalk.congr fun c hc => ?_
    rw [hstored.link c (hused c hc).1 (hused c hc).2, hlink c hc]
  refine readsBack_iff (v := w) hs' hwalk' (fun c hc => ?_) ?_ hstored hsize
  · rw [hstored.fs]
    exact (hused c hc).1
  · refine hleads.lookup (places_nodup hdir.chain.nodup) (fun q hq hne => ?_) ?_
    · obtain ⟨hqmem, hqindex⟩ := mem_places.mp hq
      rw [hstored.others q (hused q.1 hqmem).1 (hused q.1 hqmem).2 hqindex hne,
        Volume.entry, Volume.entry, hdata]
    · have hbits : attrArchive &&& attrVolumeId = 0 := by decide
      rw [Volume.Named, hstored.entry]
      refine ⟨make_inUse hascii _ _ _, ?_, rfl⟩
      simp [DirEntry.HasAttr, DirEntry.make, hbits]

/--
A write that returns 0 on a device that may fail can be read back if no link is
lost; on a volume whose cluster numbers fit their 28 bits, only then.
-/
theorem writeFileIn_readsBack_iff (hs : s.Present) (hlayout : s.fat32.fs.Layout)
    (hwf : (volumeOf s).WellFormed) (hdir : (volumeOf s).Directory parent l)
    (hascii : Ascii filename) (hsize : data.length < 4294967296)
    (hrun : writeFileIn parent filename data s = some (0, s')) :
    ((volumeOf s).InfoApart ∧ FileLinked s l filename data →
      ReadsBack s' parent filename data) ∧
    ((volumeOf s).InfoApart → s.fat32.fs.totalClusters + 2 ≤ 268435456 →
      ReadsBack s' parent filename data → FileLinked s l filename data) := by
  refine ⟨fun ⟨hinfo, hlinked⟩ => ?_, fun hinfo hbits => ?_⟩
  · exact (readsBack_iff_linked hs hlayout hinfo hwf hdir hascii hsize hrun
      (.inr hlinked)).mpr hlinked
  · exact (readsBack_iff_linked hs hlayout hinfo hwf hdir hascii hsize hrun
      (.inl hbits)).mp

end Call

/-! ## A new volume -/

theorem exists_fresh_hundred :
    ∃ s, s.device.FaultFree ∧ s.fat32.fs.Layout ∧
      (volumeOf s).Fresh 1 8 := by
  have h : Formattable (100 : UInt64).toNat := by decide
  obtain ⟨v, ⟨s, -, hrep⟩, hlayout, hfresh⟩ :=
    exists_reaches_fresh h none fun _ _ => True
  obtain ⟨hs, hlayout, rfl⟩ := represents_iff.mp hrep
  exact ⟨s, hs, hlayout, hfresh⟩

/-- The scan of an empty root ends at its first entry. -/
private theorem findSlot_fresh {s : System} {n : Nat} {v : Volume}
    (hlayout : v.fs.Layout) (hfresh : v.Fresh 1 8) (name : Name)
    (hquiet : Quiet s n (n + 8)) :
    Attempts s n v (findSlot skipNone name 2 none) (.free (some (v.slotAt (2, 0))))
      (n + 8) v := by
  have hrange : v.fs.InRange 2 := by
    rw [hfresh.fs]
    decide
  have hend : (entryAt (v.data 2) 0).IsEnd :=
    hfresh.entry_isEnd (q := (2, 0)) (by simp [mem_places])
  rw [findSlot]
  refine Runs.if_pos (by decide) (Runs.bind (readCluster_quiet hrange hquiet) ?_)
  refine Runs.bind getFs_attempts ?_
  rw [hlayout.entriesPerCluster_eq, scanIn]
  simp only [skipNone, Bool.false_eq_true, if_false, hend, true_or, if_true]
  exact Runs.pure _ _

/-- On a new volume the second cluster is linked by the transfers 35 to 37. -/
private theorem fileLinked_fresh {s : System} {k : Nat} {data : List UInt8}
    (hfresh : (volumeOf s).Fresh 1 8) (hfails : ∀ n lba, Fails s n lba ↔ n = k)
    (hk : 35 ≤ k) (hlength : data.length = 4097) :
    FileLinked s [2] roundFile data ↔ 37 ≤ k := by
  unfold FileLinked
  generalize volumeOf s = v at *
  have hseen : seen s v.fs 0 [2] = [2] := by simp [seen]
  have hend : (entryAt (v.data 2) 0).IsEnd :=
    hfresh.entry_isEnd (q := (2, 0)) (by simp [mem_places])
  have hstop : scanIn (skipNone 2) (nameToFat roundFile) 2 (v.data 2) 128 0 none =
      .stop (some (v.slotAt (2, 0))) := by
    rw [scanIn]
    simp only [skipNone, Bool.false_eq_true, if_false, hend, true_or, if_true]
    rfl
  have hchoice := v.choose_placesFrom skipNone (nameToFat roundFile) 2 0 128 [] none
  rw [Option.map_none, hstop] at hchoice
  obtain ⟨p, -, hchoice⟩ := hchoice
  have hrounds : clustersFor data.length = 2 := by
    rw [hlength]
    rfl
  have htotal : v.fs.totalClusters = 8 := by
    rw [hfresh.fs]
    rfl
  have hcopies : v.fs.numFats = 2 := by
    rw [hfresh.fs]
    rfl
  have hlink := fun c hc => hfresh.link c hc
  have htwo : v.link 2 = 0x0FFFFFFF := hlink 2 (by rw [hfresh.fs]; decide)
  have hthree : v.link 3 = free := hlink 3 (by rw [hfresh.fs]; decide)
  have hfour : v.link 4 = free := hlink 4 (by rw [hfresh.fs]; decide)
  have hreads : v.slotReads skipNone (nameToFat roundFile) [2] none = 8 := by
    rw [Volume.slotReads, hstop]
  have hquiet : ∀ n m, m ≤ 35 → Quiet s n m := by
    intro n m hm j lba _ hj
    rw [hfails]
    omega
  have hfirst : claimed s v.fs 8 v.link = (3, 13, Function.update v.link 3 eoc) := by
    rw [claimed, htotal]
    refine claimedFrom_quiet 2 1 6 (by omega) (fun i hi => ?_) hthree
      (hquiet _ _ (by decide))
    obtain rfl : i = 0 := by omega
    rw [htwo]
    decide
  have hsecond : claimed s v.fs 29 (Function.update v.link 3 eoc) =
      (4, 35, Function.update (Function.update v.link 3 eoc) 4 eoc) := by
    rw [claimed, htotal]
    refine claimedFrom_quiet 2 2 5 (by omega) (fun i hi => ?_) hfour
      (hquiet _ _ (by decide))
    obtain rfl | rfl : i = 0 ∨ i = 1 := by omega
    · rw [Function.update_of_ne (by decide), htwo]
      decide
    · rw [Function.update_self]
      decide
  have hfree : v.choose skipNone (nameToFat roundFile) (places [2]) none = .free p :=
    hchoice
  simp only [hseen, hreads, hrounds, hfree]
  rw [RoundsLinked, hfirst]
  simp only [if_true, RoundsLinked, hsecond, Works, hfails]
  constructor
  · rintro ⟨-, -, -, hworks, -⟩
    obtain ⟨hread, hwrite, -⟩ := hworks (by decide)
    omega
  · intro hlast
    exact ⟨by decide, fun h => absurd rfl h, by decide,
      fun _ => ⟨by omega, by omega, trivial⟩, trivial⟩

/-- The two clusters are taken one after the other, with the first one stored between. -/
private theorem second_cluster_taken {s : System} {v : Volume} (hlayout : v.fs.Layout)
    (hfresh : v.Fresh 1 8) (hquiet : ∀ n m, m ≤ 35 → Quiet s n m) (block : Buf) :
    Attempts s 8 v allocateCluster 3 13 (v.take 3) ∧
    Attempts s 13 (v.take 3) (writeVerified 3 block) true 29
      ((v.take 3).setData 3 block) ∧
    Attempts s 29 ((v.take 3).setData 3 block) allocateCluster 4 35
      (((v.take 3).setData 3 block).take 4) := by
  have hfs := hfresh.fs
  have hrange : ∀ c, v.fs.InRange c ↔ 2 ≤ c ∧ c < 10 := by
    intro c
    rw [hfs]
    rfl
  have hlink := hfresh.link
  refine ⟨?_, ?_, ?_⟩
  · refine allocateCluster_quiet hlayout (by rw [hfs]; decide)
      ((hrange 3).mpr (by decide)) (hlink 3 ((hrange 3).mpr (by decide))) ?_
      (hquiet _ _ (by decide))
    intro d hlow hhigh
    rw [hlink d ((hrange d).mpr (by omega)), if_pos (by omega)]
    decide
  · exact writeVerified_quiet (v := v.take 3) hlayout _ ((hrange 3).mpr (by decide))
      (hquiet 13 29 (by decide))
  · obtain ⟨w, hw⟩ : ∃ w, w = (v.take 3).setData 3 block := ⟨_, rfl⟩
    have hwFs : w.fs = v.fs := by
      rw [hw]
      rfl
    have hwLink : ∀ c, w.link c = if c = 3 then eoc else v.link c := by
      intro c
      rw [hw]
      exact v.take_link 3 c
    rw [← hw]
    refine allocateCluster_quiet (by rw [hwFs]; exact hlayout)
      (by rw [hwFs, hfs]; decide) (by rw [hwFs, hrange]; decide) ?_ ?_
      (hquiet _ _ (by decide))
    · rw [hwLink, if_neg (by decide), hlink 4 ((hrange 4).mpr (by decide))]
      rfl
    · intro d hlow hhigh
      rw [hwLink]
      split
      · decide
      · rw [hlink d ((hrange d).mpr (by omega)), if_pos (by omega)]
        decide

/-- No transfer fails any more, whatever becomes of the link. -/
private theorem second_cluster_linked {s u : System} {v : Volume} {k : Nat}
    (hfaults : s.device.faults = fun n _ => decide (n = k)) (hlow : 35 ≤ k)
    (hhigh : k ≤ 37) (hu : During s 35 v u) (hfs : v.fs = newFs 1 8) :
    ∃ status u' v', setNextCluster 3 4 u = some (status, u') ∧ Represents u' v' ∧
      v'.fs = newFs 1 8 := by
  have hthree : 3 < v.fs.totalClusters + 2 := by
    rw [hfs]
    decide
  obtain ⟨v', hset, hv', -⟩ := setNextCluster_relinks (s := s) (n := 35) 4 hthree
  obtain ⟨u', hset, hu'⟩ := hset u hu
  have hlast : (relinked s v.fs 35 v.link 3 4).1 = k + 1 := by
    have hcopies : (newFs 1 8).numFats = 2 := rfl
    simp only [relinked, Fails, hfaults, hfs, hcopies, decide_eq_true_eq]
    split_ifs <;> simp <;> omega
  rw [hlast] at hu'
  obtain ⟨part, hu', hpart⟩ := hu'
  refine ⟨_, u', v', hset, ⟨part, ⟨⟨hu'.present, ?_⟩, hu'.statics, hu'.sectors⟩, hpart⟩,
    hv'.trans hfs⟩
  funext m lba
  rw [hu'.faults, hfaults]
  exact decide_eq_false (by omega)

/-- Transfer `k` fails while the second cluster is linked to the first. -/
private theorem exists_second_cluster {k : Nat} (hlow : 35 ≤ k) (hhigh : k ≤ 37) :
    ∃ (s s' : System) (data : List UInt8), s.Present ∧ s.fat32.fs.Layout ∧
      (volumeOf s).Leaked 8 0 ∧ data.length = 4097 ∧
      (∀ n lba, Fails s n lba ↔ n = k) ∧
      (FileLinked s [2] roundFile data ↔ 37 ≤ k) ∧
      writeFileIn 2 roundFile data s = some (0, s') := by
  obtain ⟨t, ht, hlayoutT, hfreshT⟩ := exists_fresh_hundred
  obtain ⟨s, hs⟩ : ∃ s : System, s = { t with
    device := { t.device with faults := fun n _ => decide (n = k) } } := ⟨_, rfl⟩
  have hpresent : s.Present := by
    rw [hs]
    exact ht.present
  have hlayout : s.fat32.fs.Layout := by
    rw [hs]
    exact hlayoutT
  have hfresh : (volumeOf s).Fresh 1 8 := by
    rw [hs]
    exact hfreshT
  have hfaults : s.device.faults = fun n _ => decide (n = k) := by
    rw [hs]
  have hfails : ∀ n lba, Fails s n lba ↔ n = k := by
    intro n lba
    simp [Fails, hfaults]
  have hquiet : ∀ n m, m ≤ 35 → Quiet s n m := by
    intro n m hm j lba _ hj
    rw [hfails]
    omega
  obtain ⟨data, hdata⟩ : ∃ data : List UInt8, data = List.replicate 4097 7 := ⟨_, rfl⟩
  have hlength : data.length = 4097 := by
    rw [hdata, List.length_replicate]
  have hlinked := fileLinked_fresh hfresh hfails hlow hlength
  have hstart := During.start hpresent hlayout
  have hleaked := hfresh.leaked hlayout (by decide)
  generalize hv : volumeOf s = v at *
  have hvLayout : v.fs.Layout := hstart.layout
  have hfs := hfresh.fs
  have hrest : data.drop 4096 = [7] := by
    rw [hdata, List.drop_replicate]
    rfl
  have hnotNil : data ≠ [] := List.ne_nil_of_length_pos (by omega)
  -- up to transfer 35 everything works
  obtain ⟨u0, hfind, hu0⟩ := findSlot_fresh hvLayout hfresh (nameToFat roundFile)
    (hquiet 0 8 (by decide)) s hstart
  obtain ⟨hfirst, hstore, hsecond⟩ := second_cluster_taken hvLayout hfresh hquiet
    (Buf.ofList (data.take 4096))
  obtain ⟨u1, halloc, hu1⟩ := hfirst u0 hu0
  obtain ⟨u2, hverified, hu2⟩ := hstore u1 hu1
  obtain ⟨u3, halloc', hu3⟩ := hsecond u2 hu2
  obtain ⟨status, u4, v4, hset, hrep, hv4Fs⟩ :=
    second_cluster_linked hfaults hlow hhigh hu3 hfs
  have hrange4 : ∀ c, 2 ≤ c → c < 10 → v4.fs.InRange c := by
    intro c hlow hhigh
    rw [hv4Fs]
    exact ⟨hlow, hhigh⟩
  obtain ⟨u5, hverified', hrep5⟩ := writeVerified_executes v4 hrep.layout
    (hrange4 4 (by decide) (by decide)) (Buf.ofList (([7] : List UInt8).take 4096)) u4
    hrep
  -- the two rounds of the loop
  have hround : Round data 0 u0 3 u1 u2 := ⟨halloc, by decide, u1, rfl, hverified⟩
  have hround' : Round (data.drop 4096) 3 u2 4 u3 u5 := by
    rw [hrest]
    exact ⟨halloc', by decide, u4, ⟨_, hset⟩, hverified'⟩
  have hends : ((v.take 3).setData 3 (Buf.ofList (data.take 4096))).Ends 3 := by
    refine .inr ⟨?_, (v.take_link 3 3).trans (if_pos rfl)⟩
    change v.fs.InRange 3
    rw [hfs]
    decide
  have hloop : writeData data 0 0 u0 = some (some (3, 4), u5) := by
    rw [hround.writeData_eq hu0.ready (.inl rfl) hnotNil,
      hround'.writeData_eq hu2.ready hends (by rw [hrest]; simp), hrest, writeData]
    rfl
  have hinfo : v4.InfoApart := by
    refine Volume.infoApart_of_reserved hrep.layout ?_
    rw [hv4Fs]
    decide
  have htail : Executes (v4.setData 4 (Buf.ofList (([7] : List UInt8).take 4096))) (do
      if (← writeCluster 2 (setEntry (v.data 2) 0 (DirEntry.make (nameToFat roundFile)
          attrArchive 3 data.length))) ≠ 0 then
        text "FAT32: Failed to update directory\n"
        return -1
      updateFsinfoIfKnown (u32 (4 + 1))
      flushIfSata "FAT32: warning — sata_flush_cache failed after write\n"
      return (0 : Int)) 0 _ :=
    Runs.bind (writeCluster_executes _ _ (hrange4 2 (by decide) (by decide)))
      (Runs.if_neg (by decide)
        (finishCall_executes ((hinfo.setData _ _).setData _ _) _ _))
  obtain ⟨s', hend, -⟩ := htail u5 hrep5
  have hrun : writeFileIn 2 roundFile data s = some (0, s') := by
    unfold writeFileIn
    rw [Program.bind_of_some (getFs_apply s), hlayout.initialized]
    refine (Program.bind_of_some hfind).trans ?_
    change storeFile (nameToFat roundFile) data (v.slotAt (2, 0)) u0 = _
    unfold storeFile
    exact (Program.bind_of_some hloop).trans hend
  exact ⟨s, s', data, hpresent, hlayout, hv ▸ hleaked, hlength, hfails, hlinked, hrun⟩

/-- What fails is the write of the second FAT, when the second cluster is linked. -/
theorem two_clusters_read_back :
    ∃ (s s' : System) (data : List UInt8), data.length = 4097 ∧
      (∀ n lba, Fails s n lba ↔ n = 37) ∧
      writeFileIn 2 roundFile data s = some (0, s') ∧
      ReadsBack s' 2 roundFile data := by
  obtain ⟨s, s', data, hs, hlayout, hleaked, hlength, hfails, hlinked, hrun⟩ :=
    exists_second_cluster (k := 37) (by decide) le_rfl
  exact ⟨s, s', data, hlength, hfails, hrun, (writeFileIn_readsBack_iff hs hlayout
    hleaked.regular.wellFormed hleaked.directory roundFile_ascii (by omega) hrun).1
    ⟨hleaked.infoApart, hlinked.mpr le_rfl⟩⟩

/-- What fails is the read of the FAT before that, and the last byte is lost. -/
theorem second_cluster_lost_on_one_fault :
    ¬ ∀ (s s' : System) (parent : Nat) (l : List Nat) (filename data : List UInt8),
      s.Present → s.fat32.fs.Layout → (volumeOf s).WellFormed →
      (volumeOf s).Directory parent l → Ascii filename →
      data.length < 4294967296 →
      writeFileIn parent filename data s = some (0, s') →
      ReadsBack s' parent filename data := by
  intro hclaim
  obtain ⟨s, s', data, hs, hlayout, hleaked, hlength, -, hlost, hrun⟩ :=
    exists_second_cluster (k := 35) le_rfl (by decide)
  have hwf := hleaked.regular.wellFormed
  have hclusters : s.fat32.fs.totalClusters = 8 := hleaked.totalClusters
  have hback := hclaim s s' 2 [2] roundFile data hs hlayout hwf hleaked.directory
    roundFile_ascii (by omega) hrun
  have hlinked := (readsBack_iff_linked hs hlayout hleaked.infoApart hwf
    hleaked.directory roundFile_ascii (by omega) hrun (.inl (by omega))).mp hback
  exact absurd (hlost.mp hlinked) (by decide)

end EntropyOS.Fat32
