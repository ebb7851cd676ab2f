import EntropyOS.Fat32.Session

/-!
# Reading

The three calls that read a volume, in terms of the place where the name is
found and of the clusters its chain visits.
-/

namespace EntropyOS.Fat32

open EntropyOS.Foundation

/-- The buffer after `count` bytes of the clusters `l` are read to `offset`. -/
def Volume.gather (v : Volume) (l : List Nat) (count offset : Nat) (out : Buf) :
    Buf := fun k =>
  if offset ≤ k ∧ k < offset + min count (4096 * l.length) then
    v.data (l.getD ((k - offset) / 4096) 0) ((k - offset) % 4096)
  else out k

theorem Volume.gather_zero (v : Volume) (l : List Nat) (offset : Nat)
    (out : Buf) : v.gather l 0 offset out = out := by
  funext k
  rw [Volume.gather, if_neg (by omega)]

theorem Volume.gather_nil (v : Volume) (count offset : Nat) (out : Buf) :
    v.gather [] count offset out = out := by
  funext k
  rw [Volume.gather, if_neg (by simp only [List.length_nil]; omega)]

theorem Volume.gather_cons (v : Volume) (c : Nat) (l : List Nat)
    (count offset : Nat) (out : Buf) :
    v.gather (c :: l) count offset out =
      v.gather l (count - min count 4096) (offset + min count 4096)
        (copyInto out offset (v.data c) (min count 4096)) := by
  funext k
  simp only [Volume.gather, copyInto, List.length_cons]
  by_cases hfirst : offset ≤ k ∧ k < offset + min count 4096
  · have hindex : (k - offset) / 4096 = 0 := by omega
    rw [if_pos (by omega), if_neg (by omega), if_pos hfirst, hindex,
      List.getD_cons_zero, Nat.mod_eq_of_lt (by omega)]
  · by_cases hin : offset ≤ k ∧ k < offset + min count (4096 * (l.length + 1))
    · have hindex : (k - offset) / 4096 =
          (k - (offset + min count 4096)) / 4096 + 1 := by omega
      have hbyte : (k - offset) % 4096 =
          (k - (offset + min count 4096)) % 4096 := by omega
      rw [if_pos hin, if_pos (by omega), hindex, hbyte, List.getD_cons_succ]
    · rw [if_neg hin, if_neg (by omega), if_neg hfirst]

theorem readChain_executes {v : Volume} (hlayout : v.fs.Layout)
    {first last : Nat} {l : List Nat} (hwalk : Walk v.link Live first l last)
    (hrange : ∀ c ∈ l, v.fs.InRange c) (count offset : Nat) (out : Buf) :
    Executes v (readChain first count offset out)
      (true, v.gather l count offset out) v := by
  induction hwalk generalizing count offset out with
  | stop hstop =>
      rw [readChain, Volume.gather_nil]
      exact Runs.if_neg (fun h => hstop h.1) (Runs.pure v _)
  | @step c last l hlive _ ih =>
      rw [readChain]
      by_cases hzero : count = 0
      · rw [hzero, Volume.gather_zero]
        exact Runs.if_neg (by simp) (Runs.pure v _)
      · have hc := hrange c (by simp)
        refine Runs.if_pos ⟨hlive, Nat.pos_of_ne_zero hzero⟩ ?_
        refine Runs.bind (readCluster_executes v hc) ?_
        refine Runs.bind (getFs_executes v) ?_
        refine Runs.bind (getNextCluster_executes v hc.2) ?_
        rw [hlayout.clusterBytes_eq, Volume.gather_cons]
        exact ih (fun d hd => hrange d (List.mem_cons_of_mem _ hd)) _ _ _

/-! ## The three calls -/

section Calls

variable {v : Volume} {d last : Nat} {l : List Nat} {filename : List UInt8}
  (hlayout : v.fs.Layout) (hwalk : Walk v.link Live d l last)
  (hrange : ∀ c ∈ l, v.fs.InRange c)

include hlayout hwalk hrange

theorem findDirectory_executes (filename : List UInt8) :
    Executes v (findDirectory d filename)
      (match v.lookup (nameToFat filename) (places l) with
      | none => 0
      | some p =>
          if (v.entry p).HasAttr attrDirectory then (v.entry p).firstCluster
          else 0) v := by
  refine Runs.bind (findEntry_executes hlayout hwalk hrange _) ?_
  cases v.lookup (nameToFat filename) (places l) with
  | none => exact Runs.pure _ _
  | some p =>
      by_cases hdir : (v.entry p).HasAttr attrDirectory
      · simp only [hdir, if_true]
        exact Runs.if_pos hdir (Runs.pure _ _)
      · simp only [hdir, if_false]
        exact Runs.if_neg hdir (Runs.pure _ _)

theorem getFileSizeIn_executes (filename : List UInt8) (size : Nat) :
    Executes v (getFileSizeIn d filename size)
      (match v.lookup (nameToFat filename) (places l) with
      | none => (-1, size)
      | some p => (0, (v.entry p).fileSize.toNat)) v := by
  refine Runs.bind (getFs_executes v) (Runs.if_pos hlayout.initialized ?_)
  refine Runs.bind (findEntry_executes hlayout hwalk hrange _) ?_
  cases v.lookup (nameToFat filename) (places l) with
  | none => exact Runs.bind (text_executes v _) (Runs.pure _ _)
  | some p => exact Runs.pure _ _

theorem readFileIn_absent
    (hnone : v.lookup (nameToFat filename) (places l) = none)
    (out : Buf) (maxSize bytesRead : Nat) :
    Executes v (readFileIn d filename out maxSize bytesRead)
      ⟨-1, out, bytesRead⟩ v := by
  refine Runs.bind (getFs_executes v) (Runs.if_pos hlayout.initialized ?_)
  refine Runs.bind (findEntry_executes hlayout hwalk hrange _) ?_
  rw [hnone]
  exact Runs.bind (text_executes v _) (Runs.pure _ _)

theorem readFileIn_found {p : Place}
    (hfound : v.lookup (nameToFat filename) (places l) = some p)
    {last' : Nat} {cs : List Nat}
    (hchain : Walk v.link Live (v.entry p).firstCluster cs last')
    (hcs : ∀ c ∈ cs, v.fs.InRange c) (out : Buf) (maxSize bytesRead : Nat) :
    Executes v (readFileIn d filename out maxSize bytesRead)
      ⟨0, v.gather cs (min (v.entry p).fileSize.toNat maxSize) 0 out,
        min (v.entry p).fileSize.toNat maxSize⟩ v := by
  refine Runs.bind (getFs_executes v) (Runs.if_pos hlayout.initialized ?_)
  refine Runs.bind (findEntry_executes hlayout hwalk hrange _) ?_
  rw [hfound]
  refine Runs.bind (readChain_executes hlayout hchain hcs _ _ _) ?_
  exact Runs.if_pos rfl (Runs.pure _ _)

end Calls

/-! ## Two volumes that read the same -/

/-- A name has the same entry in both volumes, and the same bytes behind it. -/
structure Volume.SameName (v v' : Volume) (l : List Nat) (name : Name) : Prop where
  lookup : v'.lookup name (places l) = v.lookup name (places l)
  entry : ∀ p, v.lookup name (places l) = some p → v'.entry p = v.entry p
  bytes : ∀ p, v.lookup name (places l) = some p → ∃ cs last,
    Walk v.link Live (v.entry p).firstCluster cs last ∧
    Walk v'.link Live (v.entry p).firstCluster cs last ∧
    (∀ c ∈ cs, v.fs.InRange c) ∧
    ∀ k < (v.entry p).fileSize.toNat, k < 4096 * cs.length →
      v'.data (cs.getD (k / 4096) 0) (k % 4096) =
        v.data (cs.getD (k / 4096) 0) (k % 4096)

/-- The three calls give the same results in both states. -/
structure SameAnswers (s s' : System) (d : Nat) (filename : List UInt8) :
    Prop where
  directory : SameResult (findDirectory d filename) s s'
  size : ∀ size, SameResult (getFileSizeIn d filename size) s s'
  read : ∀ out maxSize bytesRead,
    SameResult (readFileIn d filename out maxSize bytesRead) s s'

theorem SameAnswers.of_sameName {s s' : System} {v v' : Volume}
    (hs : Represents s v) (hs' : Represents s' v') (hfs : v'.fs = v.fs)
    {d last : Nat} {l : List Nat} (hwalk : Walk v.link Live d l last)
    (hwalk' : Walk v'.link Live d l last) (hrange : ∀ c ∈ l, v.fs.InRange c)
    {filename : List UInt8} (h : v.SameName v' l (nameToFat filename)) :
    SameAnswers s s' d filename := by
  have hlayout := hs.layout
  have hlayout' := hs'.layout
  have hrange' : ∀ c ∈ l, v'.fs.InRange c := by rwa [hfs]
  constructor
  case directory =>
    have hnow := findDirectory_executes hlayout' hwalk' hrange' filename
    rw [h.lookup] at hnow
    refine ⟨_, (findDirectory_executes hlayout hwalk hrange filename).returns hs, ?_⟩
    cases hfound : v.lookup (nameToFat filename) (places l) with
    | none =>
        rw [hfound] at hnow
        exact hnow.returns hs'
    | some p =>
        rw [hfound] at hnow
        simp only [h.entry p hfound] at hnow
        exact hnow.returns hs'
  case size =>
    intro size
    have hnow := getFileSizeIn_executes hlayout' hwalk' hrange' filename size
    rw [h.lookup] at hnow
    refine ⟨_, (getFileSizeIn_executes hlayout hwalk hrange filename size).returns hs,
      ?_⟩
    cases hfound : v.lookup (nameToFat filename) (places l) with
    | none =>
        rw [hfound] at hnow
        exact hnow.returns hs'
    | some p =>
        rw [hfound] at hnow
        simp only [h.entry p hfound] at hnow
        exact hnow.returns hs'
  case read =>
    intro out maxSize bytesRead
    have hlookup := h.lookup
    cases hfound : v.lookup (nameToFat filename) (places l) with
    | none =>
        rw [hfound] at hlookup
        exact ⟨_, (readFileIn_absent hlayout hwalk hrange hfound _ _ _).returns hs,
          (readFileIn_absent hlayout' hwalk' hrange' hlookup _ _ _).returns hs'⟩
    | some p =>
        rw [hfound] at hlookup
        obtain ⟨cs, last', hchain, hchain', hcs, hbytes⟩ := h.bytes p hfound
        have hentry := h.entry p hfound
        have hcs' : ∀ c ∈ cs, v'.fs.InRange c := by rwa [hfs]
        rw [← hentry] at hchain'
        have hnow := readFileIn_found hlayout' hwalk' hrange' hlookup hchain' hcs'
          out maxSize bytesRead
        have hgather : v'.gather cs (min (v.entry p).fileSize.toNat maxSize) 0 out =
            v.gather cs (min (v.entry p).fileSize.toNat maxSize) 0 out := by
          funext k
          simp only [Volume.gather]
          split
          · exact hbytes _ (by omega) (by omega)
          · rfl
        rw [hentry, hgather] at hnow
        exact ⟨_, (readFileIn_found hlayout hwalk hrange hfound hchain hcs _ _
          _).returns hs, hnow.returns hs'⟩

end EntropyOS.Fat32
