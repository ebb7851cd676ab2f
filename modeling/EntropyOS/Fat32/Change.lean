import EntropyOS.Fat32.Tree

/-!
# Changing one entry

Every call that succeeds replaces the entry at one place of one directory: the
chain `old` of the entry that was there goes back to the free clusters, and
the entry that is stored gets the chain `new`, built from free clusters and
from `old`.  This file shows what such a change leaves alone, and that it
keeps a volume well formed.
-/

namespace EntropyOS.Fat32

open EntropyOS.Foundation

namespace Volume

/-- What a change stores at `p`, in a directory with the clusters `l`. -/
structure Stored (v v' : Volume) (l : List Nat) (p : Place) (new : List Nat) :
    Prop where
  notDot : ¬ (v'.entry p).IsDot
  chain : v'.Chain (v'.entry p).firstCluster new
  name : ∀ q ∈ places l, q ≠ p → (v.entry q).InUse →
    (v.entry q).name ≠ (v'.entry p).name
  place : (v.entry p).InUse ∨ v.FirstFree (places l) p
  orderly : v'.IsDir (.entry p) → v'.Orderly (places new)
  childless : ∀ q, ¬ v'.Child (.entry p) q

structure Change (v v' : Volume) (n : Node) (l : List Nat) (p : Place)
    (old new : List Nat) : Prop where
  fs : v'.fs = v.fs
  reach : v.Reach n
  isDir : v.IsDir n
  chain : v.Chain (v.first n) l
  mem : p ∈ places l
  replaced : (v.entry p).InUse →
    ¬ (v.entry p).IsDot ∧ v.Chain (v.entry p).firstCluster old
  unused : ¬ (v.entry p).InUse → old = []
  fresh : ∀ c ∈ new, v.link c = free ∨ c ∈ old
  link : ∀ c, c ∉ new → v'.link c = if c ∈ old then free else v.link c
  data : ∀ c, c ∉ new → c ≠ p.1 → v'.data c = v.data c
  entries : ∀ i < 128, i ≠ p.2 → v'.entry (p.1, i) = v.entry (p.1, i)
  stored : (v'.entry p).InUse → v.Stored v' l p new
  removed : ¬ (v'.entry p).InUse → (v'.entry p).IsDeleted ∧ new = []

/-! ## One directory -/

theorem Orderly.congr {v v' : Volume} {ps : List Place} (h : v.Orderly ps)
    (hsame : ∀ q ∈ ps, v'.entry q = v.entry q) : v'.Orderly ps := by
  constructor
  · intro q hq r hr
    rw [hsame q hq, hsame r hr]
    exact h.unique q hq r hr
  · refine h.ended.imp_of_mem ?_
    intro q r hq hr hended
    rw [hsame q hq, hsame r hr]
    exact hended

/-- In an orderly directory, no end mark stands before an entry in use. -/
theorem Orderly.exists_split {v : Volume} {ps : List Place} (h : v.Orderly ps)
    {p : Place} (hp : p ∈ ps)
    (hplace : (v.entry p).InUse ∨ v.FirstFree ps p) :
    ∃ before after, ps = before ++ p :: after ∧
      ∀ q ∈ before, ¬ (v.entry q).IsEnd := by
  rcases hplace with huse | ⟨before, after, rfl, -, hbefore⟩
  · obtain ⟨before, after, rfl⟩ := List.append_of_mem hp
    refine ⟨before, after, rfl, fun q hq hend => ?_⟩
    have hpair := (List.pairwise_append.mp h.ended).2.2
    exact hpair q hq p (by simp) hend huse
  · exact ⟨before, after, rfl, fun q hq => (hbefore q hq).1⟩

section Replace

variable {v v' : Volume} {ps : List Place} {p : Place}

theorem Orderly.replace (h : v.Orderly ps) (hnodup : ps.Nodup)
    (hother : ∀ q ∈ ps, q ≠ p → v'.entry q = v.entry q)
    (hend : ¬ (v'.entry p).IsEnd)
    (hname : (v'.entry p).InUse → ∀ q ∈ ps, q ≠ p → (v.entry q).InUse →
      (v.entry q).name ≠ (v'.entry p).name)
    (hbefore : (v'.entry p).InUse → ∃ before after,
      ps = before ++ p :: after ∧ ∀ q ∈ before, ¬ (v.entry q).IsEnd) :
    v'.Orderly ps := by
  constructor
  · intro q hq r hr hqUse hrUse heq
    by_cases hqp : q = p <;> by_cases hrp : r = p
    · rw [hqp, hrp]
    · subst hqp
      rw [hother r hr hrp] at hrUse heq
      exact absurd heq.symm (hname hqUse r hr hrp hrUse)
    · subst hrp
      rw [hother q hq hqp] at hqUse heq
      exact absurd heq (hname hrUse q hq hqp hqUse)
    · rw [hother q hq hqp] at hqUse heq
      rw [hother r hr hrp] at hrUse heq
      exact h.unique q hq r hr hqUse hrUse heq
  · by_cases huse : (v'.entry p).InUse
    · obtain ⟨before, after, rfl, hnoEnd⟩ := hbefore huse
      obtain ⟨-, htail, hdisjoint⟩ := List.nodup_append.mp hnodup
      have hp := List.nodup_cons.mp htail
      have hsame : ∀ q ∈ before, v'.entry q = v.entry q := fun q hq =>
        hother q (by simp [hq]) (hdisjoint q hq p (by simp))
      have hsame' : ∀ q ∈ after, v'.entry q = v.entry q := fun q hq =>
        hother q (by simp [hq]) (fun heq => hp.1 (heq ▸ hq))
      obtain ⟨hold, holdTail, -⟩ := List.pairwise_append.mp h.ended
      refine List.pairwise_append.mpr ⟨?_, List.pairwise_cons.mpr ⟨?_, ?_⟩, ?_⟩
      · refine hold.imp_of_mem fun hq hr hended => ?_
        rwa [hsame _ hq, hsame _ hr]
      · exact fun q _ hendp => absurd hendp hend
      · refine (List.pairwise_cons.mp holdTail).2.imp_of_mem
          fun hq hr hended => ?_
        rwa [hsame' _ hq, hsame' _ hr]
      · intro q hq r _ hendq
        rw [hsame q hq] at hendq
        exact absurd hendq (hnoEnd q hq)
    · refine h.ended.imp_of_mem fun {q r} hq hr hended hendq => ?_
      by_cases hrp : r = p
      · rwa [hrp]
      · have hqp : q ≠ p := by
          rintro rfl
          exact hend hendq
        rw [hother q hq hqp] at hendq
        rw [hother r hr hrp]
        exact hended hendq

end Replace

/-! ## The other nodes -/

namespace Change

variable {v v' : Volume} {n m : Node} {l k old new : List Nat} {p q : Place}
  (hv : v.WellFormed) (h : v.Change v' n l p old new)

include h

theorem reach_entry (huse : (v.entry p).InUse) : v.Reach (.entry p) :=
  .child h.reach ⟨h.isDir, ⟨l, h.chain, h.mem⟩, huse, (h.replaced huse).1⟩

include hv

theorem apart : v.Apart p n := hv.apart_of_mem h.reach h.chain h.mem

theorem not_mem_old (hm : v.Apart p m) (hk : v.Chain (v.first m) k) {c : Nat}
    (hc : c ∈ k) : c ∉ old := by
  intro hold
  by_cases huse : (v.entry p).InUse
  · exact hv.disjoint m (.entry p) k old hm.reach (h.reach_entry huse) hm.ne hk
      (h.replaced huse).2 hc hold
  · simp [h.unused huse] at hold

theorem not_mem_new (hm : v.Apart p m) (hk : v.Chain (v.first m) k) {c : Nat}
    (hc : c ∈ k) : c ∉ new := by
  intro hnew
  rcases h.fresh c hnew with hfree | hold
  · exact hk.link_ne_free hc hfree
  · exact h.not_mem_old hv hm hk hc hold

theorem link_apart (hm : v.Apart p m) (hk : v.Chain (v.first m) k) {c : Nat}
    (hc : c ∈ k) : v'.link c = v.link c := by
  rw [h.link c (h.not_mem_new hv hm hk hc), if_neg (h.not_mem_old hv hm hk hc)]

theorem entry_apart (hm : v.Apart p m) (hk : v.Chain (v.first m) k)
    (hq : q ∈ places k) (hne : q ≠ p) : v'.entry q = v.entry q := by
  obtain ⟨hmem, hbound⟩ := mem_places.mp hq
  by_cases hsame : q.1 = p.1
  · have hindex : q.2 ≠ p.2 := fun heq => hne (Prod.ext hsame heq)
    have hentry := h.entries q.2 hbound hindex
    rwa [← hsame] at hentry
  · simp only [Volume.entry]
    rw [h.data q.1 (h.not_mem_new hv hm hk hmem) hsame]

private theorem entry_of_apart (hq : v.Apart p (.entry q)) :
    v'.entry q = v.entry q := by
  cases hq with
  | child hm hchild hne =>
      obtain ⟨k, hk, hmem⟩ := hchild.mem
      exact h.entry_apart hv hm hk hmem hne

theorem first_apart (hm : v.Apart p m) : v'.first m = v.first m := by
  cases m with
  | root => simp only [first, h.fs]
  | entry q => simp only [first, h.entry_of_apart hv hm]

theorem isDir_apart (hm : v.Apart p m) : v'.IsDir m ↔ v.IsDir m := by
  cases m with
  | root => exact Iff.rfl
  | entry q => simp only [IsDir, h.entry_of_apart hv hm]

theorem chain_apart (hm : v.Apart p m) :
    v'.Chain (v'.first m) k ↔ v.Chain (v.first m) k := by
  rw [h.first_apart hv hm]
  obtain ⟨j, hj⟩ := hv.chain m hm.reach
  have hkept : v'.Chain (v.first m) j :=
    hj.congr h.fs fun c hc => h.link_apart hv hm hj hc
  constructor
  · intro hk
    rwa [hk.unique hkept]
  · intro hk
    rwa [hk.unique hj]

theorem child_apart (hm : v.Apart p m) (hne : q ≠ p) :
    v'.Child m q ↔ v.Child m q := by
  constructor
  · rintro ⟨hdir, ⟨k, hk, hq⟩, huse, hdot⟩
    rw [h.chain_apart hv hm] at hk
    rw [h.entry_apart hv hm hk hq hne] at huse hdot
    exact ⟨(h.isDir_apart hv hm).mp hdir, ⟨k, hk, hq⟩, huse, hdot⟩
  · rintro ⟨hdir, ⟨k, hk, hq⟩, huse, hdot⟩
    rw [← h.entry_apart hv hm hk hq hne] at huse hdot
    exact ⟨(h.isDir_apart hv hm).mpr hdir, ⟨k, (h.chain_apart hv hm).mpr hk, hq⟩,
      huse, hdot⟩

theorem reach_of_apart (hm : v.Apart p m) : v'.Reach m := by
  induction hm with
  | root => exact .root
  | child hm hchild hne ih =>
      exact .child ih ((h.child_apart hv hm hne).mpr hchild)

theorem reach_stored (huse : (v'.entry p).InUse) : v'.Reach (.entry p) := by
  have hn := h.apart hv
  refine .child (h.reach_of_apart hv hn) ⟨(h.isDir_apart hv hn).mpr h.isDir,
    ⟨l, (h.chain_apart hv hn).mpr h.chain, h.mem⟩, huse, ?_⟩
  exact (h.stored huse).notDot

/-- The nodes after the change: those apart from it, and the entry stored. -/
theorem apart_of_reach (hm : v'.Reach m) :
    (m = .entry p ∧ (v'.entry p).InUse) ∨ v.Apart p m := by
  induction hm with
  | root => exact .inr .root
  | @child m q _ hchild ih =>
      rcases ih with ⟨rfl, huse⟩ | hm
      · exact absurd hchild ((h.stored huse).childless q)
      · by_cases hne : q = p
        · rw [hne] at hchild ⊢
          exact .inl ⟨rfl, hchild.inUse⟩
        · exact .inr (.child hm ((h.child_apart hv hm hne).mp hchild) hne)

private theorem orderly_parent : v'.Orderly (places l) := by
  have hn := h.apart hv
  have hold := hv.orderly n l h.reach h.isDir h.chain
  have hother : ∀ q ∈ places l, q ≠ p → v'.entry q = v.entry q :=
    fun q hq hne => h.entry_apart hv hn h.chain hq hne
  refine hold.replace (places_nodup h.chain.nodup) hother ?_ ?_ ?_
  · intro hend
    by_cases huse : (v'.entry p).InUse
    · exact huse.1 hend
    · have hdeleted := (h.removed huse).1
      rw [DirEntry.IsEnd] at hend
      rw [DirEntry.IsDeleted, hend] at hdeleted
      exact absurd hdeleted (by decide)
  · exact fun huse => (h.stored huse).name
  · exact fun huse => hold.exists_split h.mem (h.stored huse).place

private theorem disjoint_stored (huse : (v'.entry p).InUse)
    (hk : v'.Chain (v'.entry p).firstCluster k) {j : List Nat}
    (hm : v.Apart p m) (hj : v'.Chain (v'.first m) j) : k.Disjoint j := by
  obtain rfl := hk.unique (h.stored huse).chain
  rw [h.chain_apart hv hm] at hj
  intro c hc hcj
  exact h.not_mem_new hv hm hj hcj hc

theorem wellFormed : v'.WellFormed := by
  constructor
  case chain =>
    intro m hm
    rcases h.apart_of_reach hv hm with ⟨rfl, huse⟩ | hm
    · exact ⟨new, (h.stored huse).chain⟩
    · obtain ⟨k, hk⟩ := hv.chain m hm.reach
      exact ⟨k, (h.chain_apart hv hm).mpr hk⟩
  case disjoint =>
    intro m o k j hm ho hne hk hj
    rcases h.apart_of_reach hv hm with ⟨rfl, huse⟩ | hm
    · rcases h.apart_of_reach hv ho with ⟨rfl, -⟩ | ho
      · exact absurd rfl hne
      · exact h.disjoint_stored hv huse hk ho hj
    · rcases h.apart_of_reach hv ho with ⟨rfl, huse⟩ | ho
      · exact (h.disjoint_stored hv huse hj hm hk).symm
      · rw [h.chain_apart hv hm] at hk
        rw [h.chain_apart hv ho] at hj
        exact hv.disjoint m o k j hm.reach ho.reach hne hk hj
  case orderly =>
    intro m k hm hdir hk
    rcases h.apart_of_reach hv hm with ⟨rfl, huse⟩ | hm
    · obtain rfl := hk.unique (h.stored huse).chain
      exact (h.stored huse).orderly hdir
    · rw [h.chain_apart hv hm] at hk
      rw [h.isDir_apart hv hm] at hdir
      by_cases hn : m = n
      · subst hn
        obtain rfl := hk.unique h.chain
        exact h.orderly_parent hv
      · refine (hv.orderly m k hm.reach hdir hk).congr fun q hq => ?_
        refine h.entry_apart hv hm hk hq ?_
        rintro rfl
        exact hn (hv.owner_unique hm.reach h.reach hk h.chain hq h.mem)

end Change

end Volume

end EntropyOS.Fat32
