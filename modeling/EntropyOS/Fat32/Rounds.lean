import EntropyOS.Fat32.Claiming

/-!
# The data loop on a device that may fail

The data loop of `fat32_write_file_in` checks each result but one: that of
`fat32_set_next_cluster`, which links a cluster to the one before it.
-/

namespace EntropyOS.Fat32

open EntropyOS.Foundation

/-! ## Rounds of the data loop -/

/--
In `s` the data loop takes the cluster, links it to `prev` from `t` on, stores
the next piece of the data, and goes on in `w`.
-/
structure Round (data : List UInt8) (prev : Nat) (s : System) (cluster : Nat)
    (t w : System) : Prop where
  allocated : allocateCluster s = some (cluster, t)
  low : 2 ≤ cluster
  stored : ∃ u, (if prev = 0 then u = t
      else ∃ result, setNextCluster prev cluster t = some (result, u)) ∧
    writeVerified cluster (Buf.ofList (data.take 4096)) u = some (true, w)

theorem Round.unique {data : List UInt8} {prev c c' : Nat} {s t t' w w' : System}
    (h : Round data prev s c t w) (h' : Round data prev s c' t' w') :
    c = c' ∧ t = t' ∧ w = w' := by
  obtain ⟨rfl, rfl⟩ := Prod.mk.inj (Option.some.inj
    (h.allocated.symm.trans h'.allocated))
  obtain ⟨u, hu, hw⟩ := h.stored
  obtain ⟨u', hu', hw'⟩ := h'.stored
  have hsame : u = u' := by
    split at hu
    · next hzero =>
        rw [if_pos hzero] at hu'
        rw [hu, hu']
    · next hzero =>
        rw [if_neg hzero] at hu'
        obtain ⟨result, hset⟩ := hu
        obtain ⟨result', hset'⟩ := hu'
        exact (Prod.mk.inj (Option.some.inj (hset.symm.trans hset'))).2
  subst hsame
  exact ⟨rfl, rfl, (Prod.mk.inj (Option.some.inj (hw.symm.trans hw'))).2⟩

/--
The rounds of the data loop take clusters below the end marks, and when they
link one to the cluster before it, the first FAT can be read and written.
-/
inductive LinksStored : List UInt8 → Nat → System → Prop
  | done {prev : Nat} {s : System} : LinksStored [] prev s
  | round {data : List UInt8} {prev cluster : Nat} {s t w : System} :
      data ≠ [] → Round data prev s cluster t w → cluster < eoc →
      (prev ≠ 0 → Stores t prev) → LinksStored (data.drop 4096) cluster w →
      LinksStored data prev s

theorem linksStored_round_iff {data : List UInt8} {prev c : Nat} {s t w : System}
    (hdata : data ≠ []) (h : Round data prev s c t w) :
    LinksStored data prev s ↔ c < eoc ∧ (prev ≠ 0 → Stores t prev) ∧
      LinksStored (data.drop 4096) c w := by
  constructor
  · intro hlinks
    cases hlinks with
    | done => exact absurd rfl hdata
    | round _ hround hlow hstores hrest =>
        obtain ⟨rfl, rfl, rfl⟩ := h.unique hround
        exact ⟨hlow, hstores, hrest⟩
  · rintro ⟨hlow, hstores, hrest⟩
    exact .round hdata h hlow hstores hrest

section DataLoop

variable {s s' t w : System} {v : Volume} {data : List UInt8} {prev c : Nat}

/-- Where the data loop can be: at its start, or behind a cluster it stored. -/
def Volume.Ends (v : Volume) (prev : Nat) : Prop :=
  prev = 0 ∨ (v.fs.InRange prev ∧ v.link prev = eoc)

structure Volume.Extends (v x : Volume) (data : List UInt8) (prev c : Nat)
    (stored : Prop) : Prop where
  fs : x.fs = v.fs
  inRange : v.fs.InRange c
  wasFree : v.link c = free
  ended : x.link c = eoc
  link : ∀ d, v.link d ≠ free → d ≠ prev → x.link d = v.link d
  joined : prev ≠ 0 → stored → x.link prev = c % 268435456
  cut : prev ≠ 0 → ¬ stored → x.link prev = eoc
  bytes : x.data c = (Buf.ofList (data.take 4096)).clip 4096
  others : ∀ d, d ≠ c → x.data d = v.data d
  info : v.InfoApart → x.InfoApart

/-- The piece of data is stored last, and changes no link. -/
private theorem extends_of_linked {y z : Volume} {stored : Prop}
    (hkeeps : v.Keeps y) (hclaims : v.Claims y c) (hfs : z.fs = y.fs)
    (hinfo : y.InfoApart → z.InfoApart)
    (hdata : z.data = y.data) (hself : z.link c = y.link c)
    (hlink : ∀ d, d ≠ prev → z.link d = y.link d)
    (hjoined : prev ≠ 0 → stored → z.link prev = c % 268435456)
    (hcut : prev ≠ 0 → ¬ stored → z.link prev = eoc) :
    v.Extends (z.setData c (Buf.ofList (data.take 4096))) data prev c stored where
  fs := hfs.trans hkeeps.fs
  inRange := hclaims.inRange
  wasFree := hclaims.free
  ended := hself.trans hclaims.ended
  link d hd hne := (hlink d hne).trans (hkeeps.link d hd)
  joined := hjoined
  cut := hcut
  bytes := Function.update_self c _ z.data
  others d hd := by
    rw [← hkeeps.data, ← hdata]
    exact Function.update_of_ne hd _ z.data
  info h := (hinfo (hkeeps.info h)).setData _ _

/-- A link that cannot be stored is left out, and the round goes on. -/
theorem Round.extends (h : Round data prev s c t w) (hs : Ready s v)
    (hprev : v.Ends prev) :
    ∃ x, Ready w x ∧ v.Extends x data prev c (Stores t prev) := by
  obtain ⟨y, ht, hkeeps, hclaims⟩ := allocateCluster_ready hs h.allocated
  have hclaim := hclaims h.low
  obtain ⟨u, hlinked, hverified⟩ := h.stored
  have hrange : y.fs.InRange c := by
    rw [hkeeps.fs]
    exact hclaim.inRange
  split at hlinked
  · next hzero =>
      subst hlinked
      exact ⟨_, writeVerified_ready ht hrange hverified, extends_of_linked hkeeps
        hclaim rfl id rfl rfl (fun _ _ => rfl) (fun hne => absurd hzero hne)
        fun hne => absurd hzero hne⟩
  · next hzero =>
      obtain ⟨result, hset⟩ := hlinked
      rcases hprev with hprev | ⟨hprevRange, hprevLink⟩
      · exact absurd hprev hzero
      have hused : v.link prev ≠ free := by
        rw [hprevLink]
        decide
      have hne : c ≠ prev := by
        rintro rfl
        exact hused hclaim.free
      have hprevLt : prev < y.fs.totalClusters + 2 := by
        rw [hkeeps.fs]
        exact hprevRange.2
      rcases ht.setNextCluster hprevLt hset with
        ⟨hstores, hu⟩ | ⟨hstores, -, hu⟩
      · exact ⟨_, writeVerified_ready hu hrange hverified, extends_of_linked hkeeps
          hclaim rfl (fun h => h.of_eq rfl rfl id) rfl
          (Function.update_of_ne hne _ y.link)
          (fun d hd => Function.update_of_ne hd _ y.link)
          (fun _ _ => Function.update_self prev _ y.link)
          fun _ hnot => absurd hstores hnot⟩
      · exact ⟨_, writeVerified_ready hu hrange hverified, extends_of_linked hkeeps
          hclaim rfl id rfl rfl (fun _ _ => rfl) (fun _ hyes => absurd hyes hstores)
          fun _ _ => (hkeeps.link prev hused).trans hprevLink⟩

theorem Volume.Extends.ends {x : Volume} {stored : Prop}
    (h : v.Extends x data prev c stored) : x.Ends c := by
  refine .inr ⟨?_, h.ended⟩
  rw [h.fs]
  exact h.inRange

theorem exists_round {first : Nat} {result : Nat × Nat} (hs : Ready s v)
    (hprev : v.Ends prev) (hdata : data ≠ [])
    (hrun : writeData data first prev s = some (some result, s')) :
    ∃ c t w, Round data prev s c t w ∧
      writeData (data.drop 4096) (if first = 0 then c else first) c w =
        some (some result, s') := by
  have hpos := List.length_pos_iff.mpr hdata
  rw [writeData, if_pos hpos] at hrun
  obtain ⟨c, t, halloc, hrun⟩ := Program.exists_of_bind hrun
  by_cases hlow : c < 2
  · rw [if_pos hlow] at hrun
    obtain ⟨_, _, -, hrun⟩ := Program.exists_of_bind hrun
    simp at hrun
  rw [if_neg hlow] at hrun
  obtain ⟨y, ht, hkeeps, hclaims⟩ := allocateCluster_ready hs halloc
  have hpiece : ∀ {u : System} {x : Volume}, Ready u x → (do
      let fs ← getFs
      let chunk := min data.length fs.clusterBytes
      if ! (← writeVerified c (Buf.ofList (data.take chunk))) then
        return none
      writeData (data.drop chunk) (if first = 0 then c else first) c) u =
        some (some result, s') →
      ∃ w, writeVerified c (Buf.ofList (data.take 4096)) u = some (true, w) ∧
        writeData (data.drop 4096) (if first = 0 then c else first) c w =
          some (some result, s') := by
    intro u x hu h
    rw [storePiece_apply hu.layout.clusterBytes_eq] at h
    obtain ⟨verified, w, hverified, h⟩ := Program.exists_of_bind h
    cases verified with
    | false => simp at h
    | true => exact ⟨w, hverified, h⟩
  by_cases hzero : prev = 0
  · rw [if_neg (not_not.mpr hzero)] at hrun
    obtain ⟨w, hverified, hrest⟩ := hpiece ht hrun
    exact ⟨c, t, w, ⟨halloc, not_lt.mp hlow, t, by rw [if_pos hzero], hverified⟩,
      hrest⟩
  · rw [if_pos hzero] at hrun
    obtain ⟨status, u, hset, hrun⟩ := Program.exists_of_bind hrun
    have hprevLt : prev < y.fs.totalClusters + 2 := by
      rw [hkeeps.fs]
      exact (hprev.resolve_left hzero).1.2
    have hu : ∃ x, Ready u x := by
      rcases ht.setNextCluster hprevLt hset with ⟨-, hu⟩ | ⟨-, -, hu⟩
      · exact ⟨_, hu⟩
      · exact ⟨_, hu⟩
    obtain ⟨x, hu⟩ := hu
    obtain ⟨w, hverified, hrest⟩ := hpiece hu hrun
    refine ⟨c, t, w, ⟨halloc, not_lt.mp hlow, u, ?_, hverified⟩, hrest⟩
    rw [if_neg hzero]
    exact ⟨status, hset⟩

/-- Once its cluster is stored, a round leaves the rest of the data to the loop. -/
theorem Round.writeData_eq (h : Round data prev s c t w) (hs : Ready s v)
    (hprev : v.Ends prev) (hdata : data ≠ []) (first : Nat) :
    writeData data first prev s =
      writeData (data.drop 4096) (if first = 0 then c else first) c w := by
  have hpos := List.length_pos_iff.mpr hdata
  have hlow := h.low
  obtain ⟨y, ht, hkeeps, -⟩ := allocateCluster_ready hs h.allocated
  obtain ⟨u, hlinked, hverified⟩ := h.stored
  rw [writeData, if_pos hpos, Program.bind_of_some h.allocated, if_neg (by omega)]
  have hpiece : ∀ {x : Volume}, Ready u x → (do
      let fs ← getFs
      let chunk := min data.length fs.clusterBytes
      if ! (← writeVerified c (Buf.ofList (data.take chunk))) then
        return none
      writeData (data.drop chunk) (if first = 0 then c else first) c) u =
        writeData (data.drop 4096) (if first = 0 then c else first) c w := by
    intro x hu
    rw [storePiece_apply hu.layout.clusterBytes_eq, Program.bind_of_some hverified]
    rfl
  split at hlinked
  · next hzero =>
      subst hlinked
      rw [if_neg (not_not.mpr hzero)]
      exact hpiece ht
  · next hzero =>
      obtain ⟨status, hset⟩ := hlinked
      have hprevLt : prev < y.fs.totalClusters + 2 := by
        rw [hkeeps.fs]
        exact (hprev.resolve_left hzero).1.2
      rw [if_pos hzero, Program.bind_of_some hset]
      rcases ht.setNextCluster hprevLt hset with ⟨-, hu⟩ | ⟨-, -, hu⟩
      · exact hpiece hu
      · exact hpiece hu

/-! ## The whole loop -/

/-- What the data loop leaves, with the clusters `ds` it took. -/
structure Volume.Fills (v v' : Volume) (ds : List Nat) (data : List UInt8)
    (prev : Nat) : Prop where
  fs : v'.fs = v.fs
  length : ds.length = clustersFor data.length
  taken : ∀ c ∈ ds, v.fs.InRange c ∧ v.link c = free
  link : ∀ c, v.link c ≠ free → c ≠ prev → v'.link c = v.link c
  others : ∀ c, v.fs.InRange c → v.link c ≠ free → v'.data c = v.data c
  bytes : ∀ k < data.length,
    v'.data (ds.getD (k / 4096) 0) (k % 4096) = Buf.ofList data k
  info : v.InfoApart → v'.InfoApart

private theorem fills_nil (v : Volume) (prev : Nat) : v.Fills v [] [] prev where
  fs := rfl
  length := rfl
  taken := by simp
  link _ _ _ := rfl
  others _ _ _ := rfl
  bytes := by simp
  info := id

/-- Below cluster 2^28, a cluster in use stays in use. -/
theorem Volume.Extends.used {x : Volume} {stored : Prop}
    (h : v.Extends x data prev c stored) (hsmall : c < 268435456) {d : Nat}
    (hd : v.fs.InRange d) (hlink : v.link d ≠ free) : x.link d ≠ free := by
  by_cases hdp : d = prev
  · subst hdp
    have hzero : d ≠ 0 := by
      have := hd.1
      omega
    have hlow := h.inRange.1
    by_cases hstored : stored
    · rw [h.joined hzero hstored, Nat.mod_eq_of_lt hsmall, free]
      omega
    · rw [h.cut hzero hstored]
      decide
  · rwa [h.link d hlink hdp]

private theorem Volume.Extends.fills {x v' : Volume} {stored : Prop} {ds : List Nat}
    (h : v.Extends x data prev c stored) (hdata : data ≠ [])
    (hsmall : c < 268435456) (hrest : x.Fills v' ds (data.drop 4096) c) :
    v.Fills v' (c :: ds) data prev := by
  have hne : ∀ d, v.link d ≠ free → d ≠ c := by
    rintro d hd rfl
    exact hd h.wasFree
  have hrange : ∀ d, x.fs.InRange d ↔ v.fs.InRange d := by
    intro d
    rw [h.fs]
  constructor
  case fs => exact hrest.fs.trans h.fs
  case length => rw [List.length_cons, hrest.length, clustersFor_drop hdata]
  case taken =>
    refine List.forall_mem_cons.mpr ⟨⟨h.inRange, h.wasFree⟩, fun d hd => ?_⟩
    obtain ⟨hdRange, hfree⟩ := hrest.taken d hd
    rw [hrange] at hdRange
    exact ⟨hdRange, by_contra fun hlink => h.used hsmall hdRange hlink hfree⟩
  case link =>
    intro d hd hdp
    have hfirst := h.link d hd hdp
    rw [hrest.link d (hfirst ▸ hd) (hne d hd), hfirst]
  case others =>
    intro d hd hlink
    rw [hrest.others d ((hrange d).mpr hd) (h.used hsmall hd hlink),
      h.others d (hne d hlink)]
  case bytes =>
    intro k hk
    by_cases hfirst : k < 4096
    · have hkept := hrest.others c ((hrange c).mpr h.inRange) (by
        rw [h.ended]
        decide)
      rw [Nat.div_eq_of_lt hfirst, List.getD_cons_zero, Nat.mod_eq_of_lt hfirst, hkept,
        h.bytes, Buf.clip_apply _ hfirst]
      simp only [Buf.ofList, List.getD_eq_getElem?_getD]
      rw [List.getElem?_take_of_lt hfirst]
    · obtain ⟨j, rfl⟩ : ∃ j, k = j + 4096 := ⟨k - 4096, by omega⟩
      have hbyte := hrest.bytes j (by
        rw [List.length_drop]
        omega)
      rw [Nat.add_div_right _ (by decide), List.getD_cons_succ,
        Nat.add_mod_right, hbyte]
      simp only [Buf.ofList, List.getD_eq_getElem?_getD, List.getElem?_drop]
      rw [Nat.add_comm]
  case info => exact fun hinfo => hrest.info (h.info hinfo)

/--
The clusters that are linked are the first ones that were taken; they are all of
them if and only if no link was left out.
-/
theorem writeData_ready {first : Nat} {result : Nat × Nat} (hs : Ready s v)
    (hprev : v.Ends prev)
    (hsmall : v.fs.totalClusters + 2 ≤ 268435456 ∨ LinksStored data prev s)
    (hrun : writeData data first prev s = some (some result, s')) :
    ∃ v' ds good last, Ready s' v' ∧ v.Fills v' ds data prev ∧
      result.1 = (if first = 0 then ds.headD 0 else first) ∧
      Walk v'.link Live (if prev = 0 then ds.headD 0 else v'.link prev) good last ∧
      good <+: ds ∧ (good = ds ↔ LinksStored data prev s) := by
  obtain ⟨size, hsize⟩ : ∃ size, size = data.length := ⟨_, rfl⟩
  induction size using Nat.strong_induction_on
      generalizing s v data first prev with
  | h size ih =>
      by_cases hdata : data = []
      · subst hdata
        rw [writeData, if_neg (by simp)] at hrun
        obtain ⟨hresult, rfl⟩ := Prod.mk.inj (Option.some.inj hrun)
        obtain rfl := Option.some.inj hresult
        refine ⟨v, [], [], _, hs, fills_nil v prev, ?_, .stop ?_, List.prefix_rfl,
          iff_of_true rfl .done⟩
        · split
          · next hzero => exact hzero
          · rfl
        · split
          · decide
          · next hzero =>
              rw [(hprev.resolve_left hzero).2]
              decide
      obtain ⟨c, t, w, hround, hrest⟩ := exists_round hs hprev hdata hrun
      obtain ⟨x, hw, hextends⟩ := hround.extends hs hprev
      have hiff := linksStored_round_iff hdata hround
      have hlow := hround.low
      have hc : c < 268435456 := by
        rcases hsmall with hbits | hlinks
        · have := hextends.inRange.2
          omega
        · have hbelow := (hiff.mp hlinks).1
          simp only [eoc] at hbelow
          omega
      have hsmall' : x.fs.totalClusters + 2 ≤ 268435456 ∨
          LinksStored (data.drop 4096) c w := by
        rw [hextends.fs]
        exact hsmall.imp_right fun hlinks => (hiff.mp hlinks).2.2
      obtain ⟨v', ds, good, last, hs', hfills, hfirst, hwalk, hprefix, hcomplete⟩ :=
        ih (data.drop 4096).length (by
          have := List.length_pos_iff.mpr hdata
          rw [List.length_drop]
          omega) hw hextends.ends hsmall' hrest rfl
      rw [if_neg (by omega)] at hwalk
      have hresult : result.1 = if first = 0 then c else first := by
        rw [hfirst, if_neg]
        split
        · omega
        · assumption
      -- the link of `prev` is as this round leaves it
      have hkept : prev ≠ 0 → v'.link prev = x.link prev := by
        intro hzero
        obtain ⟨hrange, hlink⟩ := hprev.resolve_left hzero
        have hused : v.link prev ≠ free := by
          rw [hlink]
          decide
        refine hfills.link prev (hextends.used hc hrange hused) ?_
        rintro rfl
        exact hused hextends.wasFree
      by_cases hjoined : c < eoc ∧ (prev ≠ 0 → Stores t prev)
      · refine ⟨v', c :: ds, c :: good, last, hs', hextends.fills hdata hc hfills,
          hresult, ?_, (List.prefix_cons_inj c).mpr hprefix, ?_⟩
        · have hstart : (if prev = 0 then (c :: ds).headD 0 else v'.link prev) = c := by
            split
            · rfl
            · next hzero =>
                rw [hkept hzero, hextends.joined hzero (hjoined.2 hzero),
                  Nat.mod_eq_of_lt hc]
          rw [hstart]
          exact .step ⟨hlow, hjoined.1⟩ hwalk
        · rw [hiff, ← hcomplete, List.cons_inj_right]
          exact ⟨fun h => ⟨hjoined.1, hjoined.2, h⟩, fun h => h.2.2⟩
      · refine ⟨v', c :: ds, [], _, hs', hextends.fills hdata hc hfills, hresult,
          .stop ?_, List.nil_prefix, iff_of_false (by simp) fun h => ?_⟩
        · split
          · next hzero => exact fun hlive => hjoined ⟨hlive.2, fun h => absurd hzero h⟩
          · next hzero =>
              rw [hkept hzero]
              by_cases hstores : Stores t prev
              · rw [hextends.joined hzero hstores, Nat.mod_eq_of_lt hc]
                exact fun hlive => hjoined ⟨hlive.2, fun _ => hstores⟩
              · rw [hextends.cut hzero hstores]
                decide
        · obtain ⟨hbelow, hstores, -⟩ := hiff.mp h
          exact hjoined ⟨hbelow, hstores⟩

end DataLoop

end EntropyOS.Fat32
