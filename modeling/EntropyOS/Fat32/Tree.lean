import EntropyOS.Fat32.Directory

/-!
# The directory tree

A node is the root directory or the entry at a place.  On a well-formed volume
the chains of different nodes share no cluster, so a place lies in one
directory only and the nodes form a tree.
-/

namespace EntropyOS.Fat32

open EntropyOS.Foundation

inductive Node where
  | root
  | entry (p : Place)
  deriving DecidableEq

namespace Volume

def first (v : Volume) : Node → Nat
  | .root => v.fs.rootDirCluster
  | .entry p => (v.entry p).firstCluster

def IsDir (v : Volume) : Node → Prop
  | .root => True
  | .entry p => (v.entry p).HasAttr attrDirectory

/--
The clusters `l` from `first` on, up to a link that ends the chain.  An empty
chain belongs to the first cluster 0.
-/
structure Chain (v : Volume) (first : Nat) (l : List Nat) : Prop where
  inRange : ∀ c ∈ l, v.fs.InRange c
  empty : l = [] → first = 0
  ends : ∃ last, Walk v.link Live first l last ∧ (l ≠ [] → eoc ≤ last)

/-- A live entry of a directory, other than `.` and `..`. -/
structure Child (v : Volume) (n : Node) (p : Place) : Prop where
  isDir : v.IsDir n
  mem : ∃ l, v.Chain (v.first n) l ∧ p ∈ places l
  inUse : (v.entry p).InUse
  notDot : ¬ (v.entry p).IsDot

inductive Reach (v : Volume) : Node → Prop
  | root : v.Reach .root
  | child {n : Node} {p : Place} : v.Reach n → v.Child n p → v.Reach (.entry p)

structure WellFormed (v : Volume) : Prop where
  chain : ∀ n, v.Reach n → ∃ l, v.Chain (v.first n) l
  disjoint : ∀ n m l k, v.Reach n → v.Reach m → n ≠ m →
    v.Chain (v.first n) l → v.Chain (v.first m) k → l.Disjoint k
  orderly : ∀ n l, v.Reach n → v.IsDir n → v.Chain (v.first n) l →
    v.Orderly (places l)

theorem Reach.inUse {v : Volume} {p : Place} (h : v.Reach (.entry p)) :
    (v.entry p).InUse := by
  cases h with
  | child _ hchild => exact hchild.inUse

/-! ## Chains -/

namespace Chain

variable {v v' : Volume} {first : Nat} {l : List Nat}

theorem unique {k : List Nat} (h : v.Chain first l) (h' : v.Chain first k) :
    l = k := by
  obtain ⟨last, hwalk, -⟩ := h.ends
  obtain ⟨last', hwalk', -⟩ := h'.ends
  exact (hwalk.unique hwalk').1

theorem nodup (h : v.Chain first l) : l.Nodup := by
  obtain ⟨last, hwalk, -⟩ := h.ends
  exact hwalk.nodup

theorem head_mem (h : v.Chain first l) (hne : l ≠ []) : first ∈ l := by
  obtain ⟨last, hwalk, -⟩ := h.ends
  obtain ⟨rest, rfl⟩ := hwalk.head_eq hne
  exact List.mem_cons_self

theorem link_ne_free (h : v.Chain first l) {c : Nat} (hc : c ∈ l) :
    v.link c ≠ free := by
  obtain ⟨last, hwalk, hend⟩ := h.ends
  have hlast := hend (List.ne_nil_of_mem hc)
  rcases hwalk.next_of_mem hc with hnext | hnext
  · have hlow := (hwalk.live_of_mem hnext).1
    simp only [free]
    omega
  · simp only [hnext, free, eoc] at *
    omega

theorem congr (h : v.Chain first l) (hfs : v'.fs = v.fs)
    (hlink : ∀ c ∈ l, v'.link c = v.link c) : v'.Chain first l := by
  obtain ⟨last, hwalk, hend⟩ := h.ends
  refine ⟨?_, h.empty, last, hwalk.congr hlink, hend⟩
  rw [hfs]
  exact h.inRange

theorem nil (v : Volume) : v.Chain 0 [] :=
  ⟨by simp, fun _ => rfl, 0, .stop (by simp [Live]), by simp⟩

end Chain

theorem chain_of_isChain {v : Volume} {c : Nat} {rest : List Nat}
    (hrange : ∀ d ∈ c :: rest, v.fs.InRange d)
    (hlow : ∀ d ∈ c :: rest, d < eoc)
    (hchain : (c :: rest).IsChain fun a b => v.link a = b)
    (hlast : ∀ d, (c :: rest).getLast? = some d → v.link d = eoc) :
    v.Chain c (c :: rest) := by
  refine ⟨hrange, by simp, eoc, ?_, fun _ => le_rfl⟩
  apply Walk.of_isChain hchain
  · intro d hd
    exact ⟨(hrange d hd).1, hlow d hd⟩
  · exact hlast
  · simp [Live]

/-! ## The tree -/

namespace WellFormed

variable {v : Volume} {n m : Node} {p : Place} {l k : List Nat}

theorem owner_unique (h : v.WellFormed) (hn : v.Reach n) (hm : v.Reach m)
    (hl : v.Chain (v.first n) l) (hk : v.Chain (v.first m) k)
    (hpl : p ∈ places l) (hpk : p ∈ places k) : n = m := by
  by_contra hne
  exact h.disjoint n m l k hn hm hne hl hk (mem_places.mp hpl).1
    (mem_places.mp hpk).1

theorem parent_unique (h : v.WellFormed) (hn : v.Reach n) (hm : v.Reach m)
    (hl : v.Chain (v.first n) l) (hp : p ∈ places l) (hchild : v.Child m p) :
    n = m := by
  obtain ⟨k, hk, hpk⟩ := hchild.mem
  exact h.owner_unique hn hm hl hk hp hpk

end WellFormed

inductive Level (v : Volume) : Nat → Node → Prop
  | root : v.Level 0 .root
  | child {d : Nat} {n : Node} {p : Place} :
      v.Level d n → v.Child n p → v.Level (d + 1) (.entry p)

theorem Level.reach {v : Volume} {d : Nat} {n : Node} (h : v.Level d n) :
    v.Reach n := by
  induction h with
  | root => exact .root
  | child _ hchild ih => exact .child ih hchild

theorem Reach.level {v : Volume} {n : Node} (h : v.Reach n) :
    ∃ d, v.Level d n := by
  induction h with
  | root => exact ⟨0, .root⟩
  | child _ hchild ih =>
      obtain ⟨d, hd⟩ := ih
      exact ⟨d + 1, .child hd hchild⟩

theorem WellFormed.level_unique {v : Volume} (h : v.WellFormed) {d e : Nat}
    {n : Node} (hd : v.Level d n) (he : v.Level e n) : d = e := by
  induction hd generalizing e with
  | root =>
      cases he
      rfl
  | child hn hchild ih =>
      cases he with
      | child hm hchild' =>
          obtain ⟨l, hl, hp⟩ := hchild.mem
          obtain rfl := h.parent_unique hn.reach hm.reach hl hp hchild'
          rw [ih hm]

/-- The node is reached without passing through the entry at `p`. -/
inductive Apart (v : Volume) (p : Place) : Node → Prop
  | root : v.Apart p .root
  | child {n : Node} {q : Place} :
      v.Apart p n → v.Child n q → q ≠ p → v.Apart p (.entry q)

theorem Apart.reach {v : Volume} {p : Place} {n : Node} (h : v.Apart p n) :
    v.Reach n := by
  induction h with
  | root => exact .root
  | child _ hchild _ ih => exact .child ih hchild

theorem Apart.ne {v : Volume} {p : Place} {n : Node} (h : v.Apart p n) :
    n ≠ .entry p := by
  cases h with
  | root => simp
  | child _ _ hne => simpa using hne

private theorem Level.apart {v : Volume} {p : Place} {d : Nat} {n : Node}
    (h : v.Level d n) (habove : ∀ e, v.Level e (.entry p) → d < e) :
    v.Apart p n := by
  induction h with
  | root => exact .root
  | child hn hchild ih =>
      refine .child (ih fun e he => ?_) hchild ?_
      · exact Nat.lt_of_succ_lt (habove e he)
      · rintro rfl
        exact lt_irrefl _ (habove _ (.child hn hchild))

theorem WellFormed.apart_of_mem {v : Volume} (h : v.WellFormed) {n : Node}
    {l : List Nat} {p : Place} (hn : v.Reach n) (hl : v.Chain (v.first n) l)
    (hp : p ∈ places l) : v.Apart p n := by
  obtain ⟨d, hd⟩ := hn.level
  refine hd.apart fun e he => ?_
  cases he with
  | child hm hchild =>
      obtain rfl := h.parent_unique hn hm.reach hl hp hchild
      rw [h.level_unique hd hm]
      exact Nat.lt_succ_self _

/-- Without children, an entry has nothing below it. -/
theorem Reach.apart {v : Volume} {n : Node} {p : Place} (h : v.Reach n)
    (hne : n ≠ .entry p)
    (hchildren : v.Reach (.entry p) → ∀ q, ¬ v.Child (.entry p) q) :
    v.Apart p n := by
  induction h with
  | root => exact .root
  | @child n q hn hchild ih =>
      refine .child (ih ?_) hchild (by simpa using hne)
      rintro rfl
      exact hchildren hn q hchild

end Volume

end EntropyOS.Fat32
