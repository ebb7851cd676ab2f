import EntropyOS.Fat32.Effects

/-!
# Volumes the driver has built

Beyond being well formed, a volume that only this driver wrote has files with
exactly the clusters their size asks for, directories of one cluster, and `.`
and `..` entries that point where they should.  Changes keep all of this, and
they lose no cluster unless they drop a directory that has children.
-/

namespace EntropyOS.Fat32

open EntropyOS.Foundation

namespace Volume

/-- The cluster `..` names in a directory whose parent is the node. -/
def upward (v : Volume) : Node → Nat
  | .root => 0
  | .entry p => (v.entry p).firstCluster

/-- An entry that points to a directory cluster. -/
structure Points (entry : DirEntry) (name : Name) (cluster : Nat) : Prop where
  name : entry.name = name
  isDir : entry.HasAttr attrDirectory
  cluster : entry.firstCluster = cluster

/-- The first two entries of the directory at `p`, a child of `n`. -/
structure Dots (v : Volume) (n : Node) (p : Place) : Prop where
  dot : Points (v.entry ((v.entry p).firstCluster, 0)) dotName
    (v.entry p).firstCluster
  dotDot : Points (v.entry ((v.entry p).firstCluster, 1)) dotDotName (v.upward n)

structure Regular (v : Volume) : Prop where
  wellFormed : v.WellFormed
  sized : ∀ p l, v.Reach (.entry p) → ¬ v.IsDir (.entry p) →
    v.Chain (v.first (.entry p)) l →
      l.length = clustersFor (v.entry p).fileSize.toNat
  single : ∀ n l, v.Reach n → v.IsDir n → v.Chain (v.first n) l → l.length = 1
  dots : ∀ n p, v.Reach n → v.Child n p → v.IsDir (.entry p) → v.Dots n p

/-- Every cluster that is not marked free belongs to a node. -/
def NoLost (v : Volume) : Prop :=
  ∀ c, v.fs.InRange c → v.link c ≠ free →
    ∃ n l, v.Reach n ∧ v.Chain (v.first n) l ∧ c ∈ l

theorem Regular.chain_singleton {v : Volume} (hv : v.Regular) {n : Node}
    (hn : v.Reach n) (hdir : v.IsDir n) : v.Chain (v.first n) [v.first n] := by
  obtain ⟨l, hl⟩ := hv.wellFormed.chain n hn
  obtain ⟨c, rfl⟩ := List.length_eq_one_iff.mp (hv.single n l hn hdir hl)
  have hhead := List.mem_singleton.mp (hl.head_mem (by simp))
  rwa [← hhead] at hl

/-- No directory but the root starts at the root's cluster. -/
theorem Regular.eq_root {v : Volume} (hv : v.Regular) {n : Node}
    (hn : v.Reach n) (hdir : v.IsDir n)
    (hfirst : v.first n = v.fs.rootDirCluster) : n = .root := by
  by_contra hne
  have hroot := hv.chain_singleton .root trivial
  have hself := hv.chain_singleton hn hdir
  refine hv.wellFormed.disjoint n .root _ _ hn .root hne hself hroot
    (List.mem_singleton.mpr rfl) ?_
  rw [hfirst]
  exact List.mem_singleton.mpr rfl

namespace Change

variable {v v' : Volume} {n m : Node} {l old new : List Nat} {p q : Place}

private theorem dots_apart (hv : v.Regular) (h : v.Change v' n l p old new)
    (hm : v.Apart p m) (hchild : v.Child m q) (hne : q ≠ p)
    (hdir : v.IsDir (.entry q)) : v'.Dots m q := by
  have hq : v.Apart p (.entry q) := .child hm hchild hne
  have hchain := hv.chain_singleton hq.reach hdir
  have hold := hv.dots m q hm.reach hchild hdir
  have hfirst := h.first_apart hv.wellFormed hq
  simp only [first] at hchain hfirst
  -- the changed place holds no dot entry
  have hkeep : ∀ i < 128, (v.entry ((v.entry q).firstCluster, i)).IsDot →
      v'.entry ((v.entry q).firstCluster, i) =
        v.entry ((v.entry q).firstCluster, i) := by
    intro i hi hdot
    apply h.entry_apart hv.wellFormed hq hchain
    · rw [mem_places]
      exact ⟨List.mem_singleton.mpr rfl, hi⟩
    · intro heq
      rw [heq] at hdot
      exact (h.replaced (inUse_of_isDot hdot)).1 hdot
  have hup : v'.upward m = v.upward m := by
    cases m with
    | root => rfl
    | entry r => exact h.first_apart hv.wellFormed hm
  constructor
  · rw [hfirst, hkeep 0 (by decide) (.inl hold.dot.name)]
    exact hold.dot
  · rw [hfirst, hup, hkeep 1 (by decide) (.inr hold.dotDot.name)]
    exact hold.dotDot

theorem regular (hv : v.Regular) (h : v.Change v' n l p old new)
    (hfile : (v'.entry p).InUse → ¬ v'.IsDir (.entry p) →
      new.length = clustersFor (v'.entry p).fileSize.toNat)
    (hdirectory : (v'.entry p).InUse → v'.IsDir (.entry p) →
      new.length = 1 ∧ v'.Dots n p) : v'.Regular := by
  have hwf := hv.wellFormed
  constructor
  case wellFormed => exact h.wellFormed hwf
  case sized =>
    intro q k hq hnot hk
    rcases h.apart_of_reach hwf hq with ⟨heq, huse⟩ | hq
    · cases heq
      obtain rfl := hk.unique (h.stored huse).chain
      exact hfile huse hnot
    · have hentry : v'.entry q = v.entry q := by
        cases hq with
        | child hm hchild hne =>
            obtain ⟨j, hj, hmem⟩ := hchild.mem
            exact h.entry_apart hwf hm hj hmem hne
      rw [h.isDir_apart hwf hq] at hnot
      rw [h.chain_apart hwf hq] at hk
      rw [hentry]
      exact hv.sized q k hq.reach hnot hk
  case single =>
    intro m k hm hdir hk
    rcases h.apart_of_reach hwf hm with ⟨rfl, huse⟩ | hm
    · obtain rfl := hk.unique (h.stored huse).chain
      exact (hdirectory huse hdir).1
    · rw [h.isDir_apart hwf hm] at hdir
      rw [h.chain_apart hwf hm] at hk
      exact hv.single m k hm.reach hdir hk
  case dots =>
    intro m q hm hchild hdir
    rcases h.apart_of_reach hwf hm with ⟨rfl, huse⟩ | hm
    · exact absurd hchild ((h.stored huse).childless q)
    · by_cases hne : q = p
      · subst hne
        obtain ⟨k, hk, hmem⟩ := hchild.mem
        rw [h.chain_apart hwf hm] at hk
        obtain rfl := hwf.owner_unique hm.reach h.reach hk h.chain hmem h.mem
        exact (hdirectory hchild.inUse hdir).2
      · have hchild' := (h.child_apart hwf hm hne).mp hchild
        rw [h.isDir_apart hwf (.child hm hchild' hne)] at hdir
        exact h.dots_apart hv hm hchild' hne hdir

/-- Unless the entry that goes has children, no cluster is lost. -/
theorem noLost (hv : v.WellFormed) (h : v.Change v' n l p old new)
    (hlost : v.NoLost)
    (hchildless : (v.entry p).InUse → ∀ q, ¬ v.Child (.entry p) q) :
    v'.NoLost := by
  intro c hrange hlink
  rw [h.fs] at hrange
  by_cases hnew : c ∈ new
  · have huse : (v'.entry p).InUse := by
      by_contra hnot
      simp [(h.removed hnot).2] at hnew
    exact ⟨.entry p, new, h.reach_stored hv huse, (h.stored huse).chain, hnew⟩
  · rw [h.link c hnew] at hlink
    have hold : c ∉ old := fun hmem => hlink (if_pos hmem)
    rw [if_neg hold] at hlink
    obtain ⟨m, k, hm, hk, hc⟩ := hlost c hrange hlink
    have hapart : v.Apart p m := by
      refine hm.apart ?_ fun hreach => hchildless hreach.inUse
      rintro rfl
      obtain rfl := hk.unique (h.replaced hm.inUse).2
      exact hold hc
    exact ⟨m, k, h.reach_of_apart hv hapart, (h.chain_apart hv hapart).mpr hk, hc⟩

end Change

end Volume

end EntropyOS.Fat32
