import EntropyOS.Fat32.Volume
import EntropyOS.Foundation.Chain

/-!
# Taking and giving back clusters

The allocator takes the lowest free cluster.  Over a whole write it therefore
takes a prefix of the list of free clusters, in ascending order; freeing a
chain gives back exactly the clusters the chain visits.
-/

namespace EntropyOS.Fat32

open EntropyOS.Foundation

def Volume.freeList (v : Volume) : List Nat :=
  (List.range' 2 v.fs.totalClusters).filter fun c => v.link c = free

theorem Volume.mem_freeList {v : Volume} {c : Nat} :
    c ∈ v.freeList ↔ v.fs.InRange c ∧ v.link c = free := by
  simp only [Volume.freeList, List.mem_filter, List.mem_range'_1,
    decide_eq_true_eq, Fs.InRange]
  omega

theorem Volume.freeList_nodup (v : Volume) : v.freeList.Nodup :=
  (List.nodup_range').filter _

theorem Volume.freeList_sorted (v : Volume) : v.freeList.Pairwise (· < ·) :=
  (List.pairwise_lt_range').filter _

/-! ## One cluster -/

def countTaken (count : Nat) : Nat :=
  if count ≠ unknownCount ∧ count > 0 then count - 1 else count

def countGiven (count : Nat) : Nat :=
  if count ≠ unknownCount then u32 (count + 1) else count

def Volume.take (v : Volume) (c : Nat) : Volume :=
  (v.setLink c eoc).setCount (countTaken v.freeClusters)

def Volume.give (v : Volume) (c : Nat) : Volume :=
  (v.setLink c free).setCount (countGiven v.freeClusters)

section Fields

variable (v : Volume) (c x : Nat)

@[simp] theorem Volume.take_fs : (v.take c).fs = v.fs := rfl
@[simp] theorem Volume.take_data : (v.take c).data = v.data := rfl
@[simp] theorem Volume.give_fs : (v.give c).fs = v.fs := rfl
@[simp] theorem Volume.give_data : (v.give c).data = v.data := rfl

theorem Volume.take_link :
    (v.take c).link x = if x = c then eoc else v.link x := by
  simp [Volume.take, Volume.setLink, Function.update_apply, eoc]

theorem Volume.give_link :
    (v.give c).link x = if x = c then free else v.link x := by
  simp [Volume.give, Volume.setLink, Function.update_apply, free]

end Fields

theorem modifyTaken_eq :
    (fun st : Statics =>
      if st.freeClusters ≠ unknownCount ∧ st.freeClusters > 0 then
        { st with freeClusters := st.freeClusters - 1 } else st) =
      fun st => { st with freeClusters := countTaken st.freeClusters } := by
  funext st
  unfold countTaken
  split <;> rfl

theorem modifyGiven_eq :
    (fun st : Statics =>
      if st.freeClusters ≠ unknownCount then
        { st with freeClusters := u32 (st.freeClusters + 1) } else st) =
      fun st => { st with freeClusters := countGiven st.freeClusters } := by
  funext st
  unfold countGiven
  split <;> rfl

theorem modifyTaken_executes (v : Volume) :
    Executes v (modifyFat32 fun st =>
      if st.freeClusters ≠ unknownCount ∧ st.freeClusters > 0 then
        { st with freeClusters := st.freeClusters - 1 }
      else st) () (v.setCount (countTaken v.freeClusters)) := by
  rw [modifyTaken_eq]
  exact modifyCount_executes v countTaken

theorem modifyGiven_executes (v : Volume) :
    Executes v (modifyFat32 fun st =>
      if st.freeClusters ≠ unknownCount then
        { st with freeClusters := u32 (st.freeClusters + 1) }
      else st) () (v.setCount (countGiven v.freeClusters)) := by
  rw [modifyGiven_eq]
  exact modifyCount_executes v countGiven

theorem allocateFrom_executes (v : Volume) (count cluster : Nat)
    (h : cluster + count ≤ v.fs.totalClusters + 2) :
    match (List.range' cluster count).filter fun c => v.link c = free with
    | [] => Executes v (allocateFrom count cluster) 0 v
    | c :: _ => Executes v (allocateFrom count cluster) c (v.take c) := by
  induction count generalizing cluster with
  | zero => exact Runs.pure v 0
  | succ count ih =>
      have hcluster : cluster < v.fs.totalClusters + 2 := by omega
      have hnext := getNextCluster_executes v hcluster
      rw [List.range'_succ, List.filter_cons]
      by_cases hfree : v.link cluster = free
      · simp only [hfree, decide_true, if_true]
        refine Runs.bind hnext (Runs.if_pos hfree ?_)
        refine Runs.bind (setNextCluster_executes v eoc hcluster)
          (Runs.if_pos rfl ?_)
        exact Runs.bind (modifyTaken_executes _) (Runs.pure _ _)
      · simp only [hfree, decide_false, Bool.false_eq_true, if_false]
        have hrest := ih (cluster + 1) (by omega)
        split at hrest
        · exact Runs.bind hnext (Runs.if_neg hfree hrest)
        · exact Runs.bind hnext (Runs.if_neg hfree hrest)

section Allocate

variable {v : Volume} (hlayout : v.fs.Layout)

include hlayout

private theorem allocateCluster_eq :
    match v.freeList with
    | [] => Executes v allocateCluster 0 v
    | c :: _ => Executes v allocateCluster c (v.take c) := by
  have hend := hlayout.clustersEnd
  have hcount : u32 (v.fs.totalClusters + 2) - 2 = v.fs.totalClusters := by
    rw [u32_of_lt (by omega)]
    omega
  have hsearch := allocateFrom_executes v v.fs.totalClusters 2 (by omega)
  rw [← Volume.freeList] at hsearch
  split at hsearch
  all_goals
    refine Runs.bind (getFs_executes v) ?_
    rw [hcount]
    exact hsearch

theorem allocateCluster_full (hfree : v.freeList = []) :
    Executes v allocateCluster 0 v := by
  simpa [hfree] using allocateCluster_eq hlayout

theorem allocateCluster_executes {c : Nat} {rest : List Nat}
    (hfree : v.freeList = c :: rest) :
    Executes v allocateCluster c (v.take c) := by
  simpa [hfree] using allocateCluster_eq hlayout

end Allocate

/-- The first free cluster is gone, the others are still there. -/
theorem Volume.freeList_take {v : Volume} {c : Nat} {rest : List Nat}
    (h : v.freeList = c :: rest) : (v.take c).freeList = rest := by
  have hnodup := v.freeList_nodup
  rw [h, List.nodup_cons] at hnodup
  have hfilter : (v.take c).freeList = v.freeList.filter (· ≠ c) := by
    simp only [Volume.freeList, List.filter_filter, Volume.take_fs,
      Volume.take_link]
    apply List.filter_congr
    intro x _
    by_cases hx : x = c
    · simp [hx, eoc, free]
    · simp [hx]
  rw [hfilter, h, List.filter_cons_of_neg (by simp)]
  rw [List.filter_eq_self]
  intro x hx
  have hne : x ≠ c := fun heq => hnodup.1 (heq ▸ hx)
  simpa using hne

/-- Relinking clusters that are in use frees none of them. -/
theorem Volume.freeList_setLink {v : Volume} {c next : Nat}
    (hc : v.link c ≠ free) (hnext : next % 268435456 ≠ free) :
    (v.setLink c next).freeList = v.freeList := by
  simp only [Volume.freeList, Volume.setLink_fs]
  apply List.filter_congr
  intro x _
  by_cases hx : x = c
  · simp [Volume.setLink, hx, hc, hnext]
  · simp [Volume.setLink, hx]

theorem freeCluster_executes (v : Volume) {cluster : Nat}
    (hc : cluster < v.fs.totalClusters + 2) :
    Executes v (freeCluster cluster) 0 (v.give cluster) := by
  refine Runs.bind (setNextCluster_executes v free hc) (Runs.if_pos rfl ?_)
  exact Runs.bind (modifyGiven_executes _) (Runs.pure _ _)

/-! ## A chain -/

/-- The clusters of `l` given back, one after the other. -/
def Volume.release (v : Volume) (l : List Nat) : Volume := l.foldl Volume.give v

@[simp] theorem Volume.release_fs (v : Volume) (l : List Nat) :
    (v.release l).fs = v.fs := by
  induction l generalizing v with
  | nil => rfl
  | cons c l ih => exact ih (v.give c)

@[simp] theorem Volume.release_data (v : Volume) (l : List Nat) :
    (v.release l).data = v.data := by
  induction l generalizing v with
  | nil => rfl
  | cons c l ih => exact ih (v.give c)

theorem Volume.release_link (v : Volume) (l : List Nat) (x : Nat) :
    (v.release l).link x = if x ∈ l then free else v.link x := by
  induction l generalizing v with
  | nil => simp [Volume.release]
  | cons c l ih =>
      change ((v.give c).release l).link x = _
      rw [ih, Volume.give_link]
      by_cases hx : x = c <;> simp [hx]

/-- The FSInfo sector is not among what a chain takes up. -/
theorem Volume.InfoApart.release {v : Volume} (h : v.InfoApart) (l : List Nat) :
    (v.release l).InfoApart := by
  induction l generalizing v with
  | nil => exact h
  | cons c l ih =>
      exact ih (v := v.give c)
        (h.of_eq rfl rfl fun hcount =>
          (if_neg (not_not.mpr hcount)).trans hcount)

theorem freeChain_executes {v : Volume} {first last : Nat} {l : List Nat}
    (hwalk : Walk v.link Live first l last)
    (hrange : ∀ c ∈ l, c < v.fs.totalClusters + 2) :
    Executes v (freeChain first) () (v.release l) := by
  induction l generalizing v first with
  | nil =>
      rw [freeChain]
      cases hwalk with
      | stop hstop => exact Runs.if_neg hstop (Runs.pure v ())
  | cons c l ih =>
      have hnodup := hwalk.nodup
      rw [freeChain]
      cases hwalk with
      | step hlive htail =>
          have hc : c < v.fs.totalClusters + 2 := hrange c (by simp)
          refine Runs.if_pos hlive ?_
          refine Runs.bind (getNextCluster_executes v hc) ?_
          refine Runs.bind (freeCluster_executes v hc) ?_
          refine ih (v := v.give c) (htail.congr ?_) ?_
          · intro d hd
            rw [Volume.give_link, if_neg]
            rintro rfl
            exact (List.nodup_cons.mp hnodup).1 hd
          · intro d hd
            exact hrange d (List.mem_cons_of_mem _ hd)

/-! ## The data of a file -/

def clustersFor (size : Nat) : Nat := (size + 4095) / 4096

theorem clustersFor_drop {data : List UInt8} (h : data ≠ []) :
    clustersFor data.length = clustersFor (data.drop 4096).length + 1 := by
  have hpos := List.length_pos_iff.mpr h
  simp only [clustersFor, List.length_drop]
  omega

/-- One round of the data loop, with cluster `c` after cluster `prev`. -/
def Volume.append (v : Volume) (c prev : Nat) (data : List UInt8) : Volume :=
  (if prev ≠ 0 then (v.take c).setLink prev c else v.take c).setData c
    (Buf.ofList (data.take 4096))

def Volume.fill (v : Volume) : List Nat → List UInt8 → (prev : Nat) → Volume
  | [], _, _ => v
  | c :: cs, data, prev => (v.append c prev data).fill cs (data.drop 4096) c

section Append

variable (v : Volume) (c prev : Nat) (data : List UInt8)

@[simp] theorem Volume.append_fs : (v.append c prev data).fs = v.fs := by
  unfold Volume.append
  split <;> rfl

theorem Volume.InfoApart.take {v : Volume} (h : v.InfoApart) (c : Nat) :
    (v.take c).InfoApart :=
  h.of_eq rfl rfl fun hcount =>
    (if_neg fun hknown => hknown.1 hcount).trans hcount

theorem Volume.append_data : (v.append c prev data).data =
    Function.update v.data c ((Buf.ofList (data.take 4096)).clip 4096) := by
  unfold Volume.append
  split <;> rfl

theorem Volume.append_link (x : Nat) :
    (v.append c prev data).link x =
      if prev ≠ 0 ∧ x = prev then c % 268435456
      else if x = c then eoc else v.link x := by
  unfold Volume.append
  split
  · next hprev =>
      simp only [Volume.setData_link, Volume.setLink, Function.update_apply,
        hprev, ne_eq, not_false_eq_true, true_and, Volume.take_link]
  · next hprev =>
      simp [hprev, Volume.take_link]

end Append

theorem Volume.InfoApart.fill {v : Volume} (h : v.InfoApart) (cs : List Nat)
    (data : List UInt8) (prev : Nat) : (v.fill cs data prev).InfoApart := by
  induction cs generalizing v data prev with
  | nil => exact h
  | cons c cs ih =>
      have happend : (v.append c prev data).InfoApart := by
        unfold Volume.append
        split
        · exact (h.take c).of_eq rfl rfl id
        · exact (h.take c).of_eq rfl rfl id
      exact ih happend _ _

/-- The loop may go on from `prev`. -/
def Volume.Follows (v : Volume) (prev : Nat) : Prop :=
  prev = 0 ∨ (v.fs.InRange prev ∧ v.link prev ≠ free)

theorem Volume.freeList_append {v : Volume} {c prev : Nat} {rest : List Nat}
    {data : List UInt8} (hfree : v.freeList = c :: rest)
    (hprev : v.Follows prev) (hc : c < 268435456) :
    (v.append c prev data).freeList = rest := by
  have hmem : c ∈ v.freeList := by simp [hfree]
  obtain ⟨⟨hlow, -⟩, hlink⟩ := Volume.mem_freeList.mp hmem
  have htake := Volume.freeList_take hfree
  unfold Volume.append
  split
  · next hne =>
      rcases hprev with hzero | ⟨-, hused⟩
      · exact absurd hzero hne
      · have hother : prev ≠ c := fun heq => hused (heq ▸ hlink)
        have hrelink : ((v.take c).setLink prev c).freeList = rest := by
          rw [Volume.freeList_setLink, htake]
          · rwa [Volume.take_link, if_neg hother]
          · rw [Nat.mod_eq_of_lt hc]
            simp only [free]
            omega
        exact hrelink
  · exact htake

theorem writeVerified_executes (v : Volume) (hlayout : v.fs.Layout) {c : Nat}
    (hc : v.fs.InRange c) (block : Buf) :
    Executes v (writeVerified c block) true (v.setData c block) := by
  refine Runs.bind (writeCluster_executes v block hc) (Runs.if_neg (by decide) ?_)
  refine Runs.bind (readCluster_executes _ hc) ?_
  refine Runs.bind (getFs_executes _) (Runs.if_neg ?_ (Runs.pure _ _))
  rw [Volume.setData_fs, hlayout.clusterBytes_eq, not_not]
  intro k hk
  simp [Volume.setData, Buf.clip_apply _ hk]

theorem take_chunk (data : List UInt8) :
    data.take (min data.length 4096) = data.take 4096 := by
  rw [Nat.min_comm, ← List.take_eq_take_min]

theorem drop_chunk (data : List UInt8) :
    data.drop (min data.length 4096) = data.drop 4096 := by
  rw [Nat.min_comm, ← List.drop_eq_drop_min]

/-- One piece of data, once its cluster is taken and linked. -/
theorem storePiece_apply {s : System} (hbytes : s.fat32.fs.clusterBytes = 4096)
    (data : List UInt8) (first c : Nat) :
    (do
      let fs ← getFs
      let chunk := min data.length fs.clusterBytes
      if ! (← writeVerified c (Buf.ofList (data.take chunk))) then
        return none
      writeData (data.drop chunk) (if first = 0 then c else first) c) s =
    (do
      if ! (← writeVerified c (Buf.ofList (data.take 4096))) then
        return none
      writeData (data.drop 4096) (if first = 0 then c else first) c) s := by
  rw [Program.bind_of_some (getFs_apply s), hbytes,
    take_chunk, drop_chunk]

theorem writeData_round {v : Volume} (hlayout : v.fs.Layout) {c prev : Nat}
    {rest : List Nat} {data : List UInt8} (hdata : data ≠ [])
    (hfree : v.freeList = c :: rest) (hprev : v.Follows prev) (first : Nat)
    {result : Option (Nat × Nat)} {v' : Volume}
    (hnext : Executes (v.append c prev data)
      (writeData (data.drop 4096) (if first = 0 then c else first) c) result v') :
    Executes v (writeData data first prev) result v' := by
  have hmem : c ∈ v.freeList := by simp [hfree]
  obtain ⟨hrange, hlink⟩ := Volume.mem_freeList.mp hmem
  have hpos := List.length_pos_iff.mpr hdata
  have hlow := hrange.1
  have hbytes := hlayout.clusterBytes_eq
  have hchunk := drop_chunk data
  have htake := take_chunk data
  rw [writeData]
  refine Runs.if_pos hpos ?_
  refine Runs.bind (allocateCluster_executes hlayout hfree)
    (Runs.if_neg (by omega) ?_)
  by_cases hzero : prev = 0
  · refine Runs.if_neg (not_not.mpr hzero) (Runs.bind (getFs_executes _) ?_)
    simp only [Volume.take_fs, hbytes, hchunk, htake]
    refine Runs.bind (writeVerified_executes (v.take c) hlayout hrange _)
      (Runs.if_neg (by decide) ?_)
    simpa [Volume.append, hzero] using hnext
  · rcases hprev with hprev | ⟨hprev, -⟩
    · exact absurd hprev hzero
    refine Runs.if_pos hzero ?_
    refine Runs.bind (setNextCluster_executes (v.take c) c hprev.2) ?_
    refine Runs.bind (getFs_executes _) ?_
    simp only [Volume.setLink_fs, Volume.take_fs, hbytes, hchunk, htake]
    refine Runs.bind
      (writeVerified_executes ((v.take c).setLink prev c) hlayout hrange _)
      (Runs.if_neg (by decide) ?_)
    simpa [Volume.append, hzero] using hnext

theorem writeData_full {v : Volume} (hlayout : v.fs.Layout)
    {data : List UInt8} (hdata : data ≠ []) (hfree : v.freeList = [])
    (first prev : Nat) : Executes v (writeData data first prev) none v := by
  rw [writeData]
  refine Runs.if_pos (List.length_pos_iff.mpr hdata) ?_
  refine Runs.bind (allocateCluster_full hlayout hfree)
    (Runs.if_pos (by decide) ?_)
  exact Runs.bind (text_executes v _) (Runs.pure _ _)

theorem Volume.follows_append {v : Volume} {c prev : Nat}
    (data : List UInt8) (hc : v.fs.InRange c) (hlink : v.link c = free)
    (hprev : v.Follows prev) : (v.append c prev data).Follows c := by
  have hne : ¬ (prev ≠ 0 ∧ c = prev) := by
    rintro ⟨hzero, rfl⟩
    rcases hprev with h | h
    · exact hzero h
    · exact h.2 hlink
  refine .inr ⟨by simpa using hc, ?_⟩
  rw [Volume.append_link, if_neg hne, if_pos rfl]
  decide

/--
The data loop takes the lowest free clusters, and fails once they run out.
Below cluster 2^28 no link looks like a free entry; the last cluster taken is
linked to nothing.
-/
theorem writeData_executes {v : Volume} (hlayout : v.fs.Layout)
    (data : List UInt8) (first : Nat) {prev : Nat} (hprev : v.Follows prev)
    {cs : List Nat} (hcs : v.freeList.take (clustersFor data.length) = cs)
    (hsmall : ∀ c ∈ cs.dropLast, c < 268435456)
    (hlast : cs.length = clustersFor data.length ∨ ∀ c ∈ cs, c < 268435456) :
    Executes v (writeData data first prev)
      (if cs.length = clustersFor data.length then
        some (if first = 0 then cs.headD 0 else first, cs.getLastD prev)
      else none)
      (v.fill cs data prev) := by
  induction cs generalizing v data first prev with
  | nil =>
      by_cases hdata : data = []
      · subst hdata
        rw [writeData]
        have hfirst : (if first = 0 then 0 else first) = first := by
          split <;> simp_all
        simp only [List.length_nil, clustersFor, List.headD_nil,
          List.getLastD_nil, hfirst]
        exact Runs.if_neg (by decide) (Runs.pure _ _)
      · have hpos := List.length_pos_iff.mpr hdata
        have hcount : clustersFor data.length ≠ 0 := by
          simp only [clustersFor]
          omega
        have hfree : v.freeList = [] := by
          rcases List.take_eq_nil_iff.mp hcs with h | h
          · exact absurd h hcount
          · exact h
        rw [if_neg (by simpa using hcount.symm)]
        exact writeData_full hlayout hdata hfree first prev
  | cons c cs ih =>
      have hdata : data ≠ [] := by
        rintro rfl
        simp [clustersFor] at hcs
      have hcount := clustersFor_drop hdata
      rw [hcount] at hcs hlast
      obtain ⟨rest, hfree⟩ : ∃ rest, v.freeList = c :: rest := by
        cases hlist : v.freeList with
        | nil => simp [hlist] at hcs
        | cons d rest =>
            simp only [hlist, List.take_succ_cons, List.cons.injEq] at hcs
            exact ⟨rest, by rw [hcs.1]⟩
      simp only [hfree, List.take_succ_cons, List.cons.injEq, true_and] at hcs
      have hmem : c ∈ v.freeList := by simp [hfree]
      obtain ⟨hrange, hlink⟩ := Volume.mem_freeList.mp hmem
      have hnonzero : (if first = 0 then c else first) ≠ 0 := by
        have := hrange.1
        split <;> omega
      -- only the last cluster may be 2^28 or more, and then the data is at its end
      have hnext : (v.append c prev data).freeList.take
          (clustersFor (data.drop 4096).length) = cs := by
        by_cases hc : c < 268435456
        · rw [Volume.freeList_append hfree hprev hc, hcs]
        · cases cs with
          | nil =>
              rcases hlast with hlast | hlast
              · rw [List.length_singleton] at hlast
                rw [show clustersFor (data.drop 4096).length = 0 by omega,
                  List.take_zero]
              · exact absurd (hlast c (by simp)) hc
          | cons d cs => exact absurd (hsmall c (by simp)) hc
      have hsmall' : ∀ d ∈ cs.dropLast, d < 268435456 := by
        intro d hd
        refine hsmall d ?_
        cases cs with
        | nil => simp at hd
        | cons e cs => exact List.mem_cons_of_mem _ hd
      have hlast' : cs.length = clustersFor (data.drop 4096).length ∨
          ∀ d ∈ cs, d < 268435456 := by
        rcases hlast with hlast | hlast
        · exact .inl (Nat.succ.inj hlast)
        · exact .inr fun d hd => hlast d (List.mem_cons_of_mem _ hd)
      have hrest := ih (v := v.append c prev data) (by simpa using hlayout)
        (data.drop 4096) (if first = 0 then c else first)
        (Volume.follows_append data hrange hlink hprev) hnext hsmall' hlast'
      have hround := writeData_round hlayout hdata hfree hprev first hrest
      have hresult : (if cs.length = clustersFor (data.drop 4096).length then
            some (if (if first = 0 then c else first) = 0 then cs.headD 0
              else if first = 0 then c else first, cs.getLastD c)
          else none) =
          if (c :: cs).length = clustersFor data.length then
            some (if first = 0 then (c :: cs).headD 0 else first,
              (c :: cs).getLastD prev)
          else none := by
        simp only [hcount, List.length_cons, Nat.add_right_cancel_iff,
          if_neg hnonzero, List.headD_cons, List.getLastD_cons]
      rw [← hresult]
      exact hround

/-! ## What the data loop leaves -/

@[simp] theorem Volume.fill_fs (v : Volume) (cs : List Nat) (data : List UInt8)
    (prev : Nat) : (v.fill cs data prev).fs = v.fs := by
  induction cs generalizing v data prev with
  | nil => rfl
  | cons c cs ih => rw [Volume.fill, ih, Volume.append_fs]

theorem Volume.fill_link_other (v : Volume) {cs : List Nat} (data : List UInt8)
    {prev x : Nat} (hx : x ∉ cs) (hprev : prev ≠ 0 → x ≠ prev) :
    (v.fill cs data prev).link x = v.link x := by
  induction cs generalizing v data prev with
  | nil => rfl
  | cons c cs ih =>
      rw [List.mem_cons, not_or] at hx
      rw [Volume.fill, ih _ _ hx.2 (fun _ => hx.1), Volume.append_link,
        if_neg (fun h => hprev h.1 h.2), if_neg hx.1]

theorem Volume.fill_data_other (v : Volume) {cs : List Nat} (data : List UInt8)
    (prev : Nat) {x : Nat} (hx : x ∉ cs) :
    (v.fill cs data prev).data x = v.data x := by
  induction cs generalizing v data prev with
  | nil => rfl
  | cons c cs ih =>
      rw [List.mem_cons, not_or] at hx
      rw [Volume.fill, ih _ _ _ hx.2, Volume.append_data,
        Function.update_of_ne hx.1]

theorem Volume.fill_link_prev (v : Volume) {c : Nat} {cs : List Nat}
    (data : List UInt8) {prev : Nat} (hprev : prev ∉ c :: cs)
    (hzero : prev ≠ 0) :
    (v.fill (c :: cs) data prev).link prev = c % 268435456 := by
  rw [List.mem_cons, not_or] at hprev
  rw [Volume.fill, Volume.fill_link_other _ _ hprev.2 (fun _ => hprev.1),
    Volume.append_link, if_pos ⟨hzero, rfl⟩]

theorem Volume.fill_link_next (v : Volume) {before after : List Nat} {c d : Nat}
    (data : List UInt8) {prev : Nat}
    (hnodup : (before ++ c :: d :: after).Nodup) (hzero : c ≠ 0) :
    (v.fill (before ++ c :: d :: after) data prev).link c = d % 268435456 := by
  induction before generalizing v data prev with
  | nil =>
      have hc := (List.nodup_cons.mp hnodup).1
      exact Volume.fill_link_prev _ _ hc hzero
  | cons b before ih => exact ih _ _ (List.nodup_cons.mp hnodup).2

theorem Volume.fill_chain (v : Volume) {cs : List Nat} (data : List UInt8)
    {prev : Nat} (hnodup : cs.Nodup) (hlow : ∀ c ∈ cs, 2 ≤ c)
    (hsmall : ∀ c ∈ cs, c < 268435456) :
    cs.IsChain fun c d => (v.fill cs data prev).link c = d := by
  rw [List.isChain_iff_forall_rel_of_append_cons_cons]
  rintro c d before after rfl
  have hzero : c ≠ 0 := by
    have := hlow c (by simp)
    omega
  rw [Volume.fill_link_next _ _ hnodup hzero]
  exact Nat.mod_eq_of_lt (hsmall d (by simp))

theorem Volume.fill_link_last (v : Volume) {cs : List Nat} (data : List UInt8)
    {prev : Nat} (hnodup : (prev :: cs).Nodup) {c : Nat}
    (hlast : cs.getLast? = some c) : (v.fill cs data prev).link c = eoc := by
  induction cs generalizing v data prev with
  | nil => simp at hlast
  | cons d cs ih =>
      have htail := List.nodup_cons.mp hnodup
      cases cs with
      | nil =>
          simp only [List.getLast?_singleton, Option.some.injEq] at hlast
          subst hlast
          have hne : d ≠ prev := fun heq => htail.1 (by simp [heq])
          rw [Volume.fill, Volume.fill, Volume.append_link,
            if_neg (fun h => hne h.2), if_pos rfl]
      | cons e cs =>
          rw [List.getLast?_cons_cons] at hlast
          exact ih (v.append d prev data) (data.drop 4096) htail.2 hlast

end EntropyOS.Fat32
