import EntropyOS.Fat32.RoundTrip

/-!
# Comparing a file

`fat32_compare_file_in` compares cluster by cluster.  At the first difference it
copies what the disk and the caller have there into two snippets, which goes on
over the end of the cluster.
-/

namespace EntropyOS.Fat32

open EntropyOS.Foundation

/-- What the caller's pointers lead to; `none` is a null pointer. -/
structure Outputs where
  mismatchOffset : Option Nat
  diskSnip : Option Buf
  expectedSnip : Option Buf

/-- The byte loop of a round, from byte `i` of the cluster on. -/
def firstDifference (buf expected : Buf) (filePos : Nat) :
    (count i : Nat) → Option Nat
  | 0, _ => none
  | count + 1, i =>
      if buf i ≠ expected (filePos + i) then some i
      else firstDifference buf expected filePos count (i + 1)

/-- The loop over the snippets: how much was copied, and both of them. -/
def copySnippets (expected : Buf) (start copyLen cur off copied : Nat)
    (buf disk snip : Buf) : Program System (Nat × Buf × Buf) := do
  if copied < copyLen ∧ Live cur then
    let fs ← getFs
    let toCopy := min (fs.clusterBytes - off) (copyLen - copied)
    let disk := copyInto disk copied (fun k => buf (off + k)) toCopy
    let snip := copyInto snip copied (fun k => expected (start + copied + k)) toCopy
    let next ← getNextCluster cur
    if copied + toCopy < copyLen ∧ Live next then
      let some buf ← readCluster next | return (copied + toCopy, disk, snip)
      by
        apply copySnippets
        exacts [expected, start, copyLen, next, 0, copied + toCopy, buf, disk, snip]
    else
      by
        apply copySnippets
        exacts [expected, start, copyLen, next, 0, copied + toCopy, buf, disk, snip]
  else
    return (copied, disk, snip)
partial_fixpoint

/-- What is stored when byte `i` of `cluster` differs. -/
def reportMismatch (expected : Buf) (fileSize snipLen cluster filePos i : Nat)
    (buf : Buf) (outputs : Outputs) : Program System Outputs := do
  let offset := outputs.mismatchOffset.map fun _ => filePos + i
  match outputs.diskSnip, outputs.expectedSnip with
  | some disk, some snip =>
      if snipLen = 0 then
        return ⟨offset, some disk, some snip⟩
      let copyLen := min snipLen (fileSize - (filePos + i))
      let (copied, disk, snip) ←
        copySnippets expected (filePos + i) copyLen cluster i 0 buf disk snip
      -- what could not be read is zero in both
      return ⟨offset, some (copyInto disk copied (fun _ => 0) (copyLen - copied)),
        some (copyInto snip copied (fun _ => 0) (copyLen - copied))⟩
  | disk, snip => return ⟨offset, disk, snip⟩

def compareChain (expected : Buf) (fileSize snipLen : Nat) (outputs : Outputs)
    (cluster filePos : Nat) : Program System (Int × Outputs) := do
  if Live cluster ∧ filePos < fileSize then
    let some buf ← readCluster cluster | do
      text "FAT32: Failed to read cluster\n"
      return (-1, outputs)
    let fs ← getFs
    let chunk := min (fileSize - filePos) fs.clusterBytes
    match firstDifference buf expected filePos chunk 0 with
    | some i =>
        let outputs ← reportMismatch expected fileSize snipLen cluster filePos i
          buf outputs
        return (-1, outputs)
    | none =>
        let next ← getNextCluster cluster
        by
          apply compareChain
          exacts [expected, fileSize, snipLen, outputs, next, filePos + chunk]
  else
    return (0, outputs)
partial_fixpoint

def compareFileIn (parent : Nat) (filename : List UInt8) (expected : Buf)
    (expectedSize : Nat) (outputs : Outputs) (snipLen : Nat) :
    Program System (Int × Outputs) := do
  unless (← getFs).initialized do
    text "FAT32: Not initialized\n"
    return (-1, outputs)
  let some found ← findEntry parent (nameToFat filename) | do
    text "FAT32: File not found\n"
    return (-1, outputs)
  let fileSize := found.entry.fileSize.toNat
  if fileSize ≠ expectedSize then
    return (-1, { outputs with
      mismatchOffset := outputs.mismatchOffset.map fun _ =>
        min fileSize expectedSize })
  compareChain expected fileSize snipLen outputs found.entry.firstCluster 0

/-! ## One cluster -/

section Difference

variable {buf expected : Buf} {filePos count i : Nat}

theorem firstDifference_none :
    firstDifference buf expected filePos count i = none ↔
      ∀ k < count, buf (i + k) = expected (filePos + (i + k)) := by
  induction count generalizing i with
  | zero => simp [firstDifference]
  | succ count ih =>
      rw [firstDifference]
      by_cases hhere : buf i = expected (filePos + i)
      · rw [if_neg (by simpa using hhere), ih]
        constructor
        · intro h k hk
          cases k with
          | zero => exact hhere
          | succ k =>
              have hnext := h k (by omega)
              rwa [show i + 1 + k = i + (k + 1) by omega] at hnext
        · intro h k hk
          have hnext := h (k + 1) (by omega)
          rwa [show i + (k + 1) = i + 1 + k by omega] at hnext
      · rw [if_pos hhere]
        constructor
        · intro h
          simp at h
        · intro h
          exact absurd (h 0 (by omega)) hhere

theorem firstDifference_some {k : Nat} (hk : k < count)
    (hdiffer : buf (i + k) ≠ expected (filePos + (i + k)))
    (hequal : ∀ j < k, buf (i + j) = expected (filePos + (i + j))) :
    firstDifference buf expected filePos count i = some (i + k) := by
  induction count generalizing i k with
  | zero => omega
  | succ count ih =>
      rw [firstDifference]
      cases k with
      | zero => exact if_pos hdiffer
      | succ k =>
          have hhere := hequal 0 (by omega)
          rw [if_neg (by simpa using hhere), ih (k := k) (by omega)]
          · congr 1
            omega
          · rwa [show i + 1 + k = i + (k + 1) by omega]
          · intro j hj
            have hnext := hequal (j + 1) (by omega)
            rwa [show i + (j + 1) = i + 1 + j by omega] at hnext

end Difference

/-! ## On a device that works -/

theorem copyInto_congr {dest src src' : Buf} {offset size : Nat}
    (h : ∀ k < size, src k = src' k) :
    copyInto dest offset src size = copyInto dest offset src' size := by
  funext k
  simp only [copyInto]
  split
  · exact h _ (by omega)
  · rfl

theorem copyInto_split {dest src front back : Buf} {offset total a b : Nat}
    (htotal : total = a + b) (hfront : ∀ k < a, src k = front k)
    (hback : ∀ k < b, src (a + k) = back k) :
    copyInto dest offset src total =
      copyInto (copyInto dest offset front a) (offset + a) back b := by
  funext k
  simp only [copyInto, htotal]
  by_cases hfirst : offset ≤ k ∧ k < offset + a
  · rw [if_pos (by omega), if_neg (by omega), if_pos hfirst, hfront _ (by omega)]
  · by_cases hin : offset ≤ k ∧ k < offset + (a + b)
    · rw [if_pos hin, if_pos (by omega), ← hback _ (by omega)]
      congr 1
      omega
    · rw [if_neg hin, if_neg (by omega), if_neg hfirst]

theorem copyInto_none (dest src : Buf) (offset : Nat) :
    copyInto dest offset src 0 = dest := by
  funext k
  rw [copyInto, if_neg (by omega)]

/-- The bytes of the clusters `l`, one cluster after the other. -/
def Volume.bytes (v : Volume) (l : List Nat) : Buf := fun k =>
  v.data (l.getD (k / 4096) 0) (k % 4096)

theorem Volume.bytes_first (v : Volume) (c : Nat) (l : List Nat) {k : Nat}
    (hk : k < 4096) : v.bytes (c :: l) k = v.data c k := by
  rw [Volume.bytes, Nat.div_eq_of_lt hk, Nat.mod_eq_of_lt hk, List.getD_cons_zero]

theorem Volume.bytes_next (v : Volume) (c : Nat) (l : List Nat) (k : Nat) :
    v.bytes (c :: l) (4096 + k) = v.bytes l k := by
  rw [Volume.bytes, Volume.bytes, Nat.add_div_left _ (by decide),
    Nat.add_mod_left, List.getD_cons_succ]

section Works

variable {v : Volume} (hlayout : v.fs.Layout)

include hlayout

/-- The last round: what is left to copy is in this cluster. -/
private theorem copySnippets_last {cur : Nat} (hlive : Live cur)
    (hc : v.fs.InRange cur) (expected : Buf) {start copyLen off copied : Nat}
    (buf disk snip : Buf) (hmore : copied < copyLen)
    (hfit : copyLen - copied + off ≤ 4096) :
    Executes v (copySnippets expected start copyLen cur off copied buf disk snip)
      (copyLen, copyInto disk copied (fun k => buf (off + k)) (copyLen - copied),
        copyInto snip copied (fun k => expected (start + copied + k))
          (copyLen - copied)) v := by
  have htoCopy : min (v.fs.clusterBytes - off) (copyLen - copied) =
      copyLen - copied := by
    rw [hlayout.clusterBytes_eq]
    omega
  have hdone : copied + (copyLen - copied) = copyLen := by omega
  rw [copySnippets]
  refine Runs.if_pos ⟨hmore, hlive⟩ ?_
  refine Runs.bind (getFs_executes v) ?_
  refine Runs.bind (getNextCluster_executes v hc.2) ?_
  rw [htoCopy, hdone]
  refine Runs.if_neg (fun h => lt_irrefl _ h.1) ?_
  rw [copySnippets]
  exact Runs.if_neg (fun h => lt_irrefl _ h.1) (Runs.pure v _)

/-- The snippets are filled when the chain goes on for as long. -/
theorem copySnippets_executes {cur last : Nat} {rest : List Nat}
    (hwalk : Walk v.link Live cur (cur :: rest) last)
    (hrange : ∀ c ∈ cur :: rest, v.fs.InRange c) (expected : Buf)
    (start : Nat) {copyLen off copied : Nat} (disk snip : Buf) (hoff : off < 4096)
    (hmore : copied < copyLen)
    (hfit : copyLen - copied + off ≤ 4096 * (rest.length + 1)) :
    Executes v
      (copySnippets expected start copyLen cur off copied (v.data cur) disk snip)
      (copyLen,
        copyInto disk copied (fun k => v.bytes (cur :: rest) (off + k))
          (copyLen - copied),
        copyInto snip copied (fun k => expected (start + copied + k))
          (copyLen - copied)) v := by
  induction rest generalizing cur off copied disk snip with
  | nil =>
      have hbytes : copyInto disk copied (fun k => v.bytes [cur] (off + k))
          (copyLen - copied) =
          copyInto disk copied (fun k => v.data cur (off + k)) (copyLen - copied) :=
        copyInto_congr fun k hk => v.bytes_first cur [] (by
          simp only [List.length_nil] at hfit
          omega)
      rw [hbytes]
      exact copySnippets_last hlayout (hwalk.live_of_mem List.mem_cons_self)
        (hrange cur List.mem_cons_self) expected _ disk snip hmore (by simpa using hfit)
  | cons next rest ih =>
      have hc := hrange cur List.mem_cons_self
      have hlive := hwalk.live_of_mem List.mem_cons_self
      by_cases hlast : copyLen - copied + off ≤ 4096
      · have hbytes : copyInto disk copied
            (fun k => v.bytes (cur :: next :: rest) (off + k)) (copyLen - copied) =
            copyInto disk copied (fun k => v.data cur (off + k))
              (copyLen - copied) :=
          copyInto_congr fun k hk => v.bytes_first cur _ (by omega)
        rw [hbytes]
        exact copySnippets_last hlayout hlive hc expected _ disk snip hmore hlast
      · -- the rest of this cluster, and then the next one from its start
        obtain ⟨hnext, htail⟩ : v.link cur = next ∧
            Walk v.link Live next (next :: rest) last := by
          cases hwalk with
          | step _ htail =>
              obtain ⟨_, hhead⟩ := htail.head_eq (by simp)
              obtain rfl := (List.cons.inj hhead).1
              exact ⟨rfl, htail⟩
        have htoCopy : min (v.fs.clusterBytes - off) (copyLen - copied) =
            4096 - off := by
          rw [hlayout.clusterBytes_eq]
          omega
        have hlater : copied + (4096 - off) < copyLen := by omega
        have hsplit : copyLen - copied =
            4096 - off + (copyLen - (copied + (4096 - off))) := by omega
        have hround := ih htail (fun c hc => hrange c (List.mem_cons_of_mem _ hc))
          (copyInto disk copied (fun k => v.data cur (off + k)) (4096 - off))
          (copyInto snip copied (fun k => expected (start + copied + k))
            (4096 - off)) (show 0 < 4096 by decide) hlater (by
              simp only [List.length_cons] at hfit
              omega)
        have hsnip : copyInto snip copied (fun k => expected (start + copied + k))
              (copyLen - copied) =
            copyInto (copyInto snip copied (fun k => expected (start + copied + k))
              (4096 - off)) (copied + (4096 - off))
              (fun k => expected (start + (copied + (4096 - off)) + k))
              (copyLen - (copied + (4096 - off))) :=
          copyInto_split hsplit (fun k _ => rfl)
            (fun k _ => congrArg expected (by omega))
        rw [copySnippets]
        refine Runs.if_pos ⟨hmore, hlive⟩ ?_
        refine Runs.bind (getFs_executes v) ?_
        refine Runs.bind (getNextCluster_executes v hc.2) ?_
        rw [htoCopy, hnext]
        refine Runs.if_pos ⟨hlater, htail.live_of_mem List.mem_cons_self⟩ ?_
        refine Runs.bind (readCluster_executes v (hrange next (by simp))) ?_
        rw [copyInto_split hsplit
            (fun k hk => v.bytes_first cur (next :: rest) (by omega))
            (fun k _ => (congrArg (v.bytes _) (by omega)).trans
              (v.bytes_next cur (next :: rest) (0 + k))), hsnip]
        exact hround

theorem reportMismatch_executes {cluster last : Nat} {rest : List Nat}
    (hwalk : Walk v.link Live cluster (cluster :: rest) last)
    (hrange : ∀ c ∈ cluster :: rest, v.fs.InRange c) (expected : Buf)
    {fileSize snipLen filePos i offset : Nat} {disk snip : Buf} (hi : i < 4096)
    (hsnip : 0 < snipLen) (hsize : filePos + i < fileSize)
    (hfit : fileSize - filePos ≤ 4096 * (rest.length + 1)) :
    Executes v (reportMismatch expected fileSize snipLen cluster filePos i
        (v.data cluster) ⟨some offset, some disk, some snip⟩)
      ⟨some (filePos + i),
        some (copyInto disk 0 (fun k => v.bytes (cluster :: rest) (i + k))
          (min snipLen (fileSize - (filePos + i)))),
        some (copyInto snip 0 (fun k => expected (filePos + i + k))
          (min snipLen (fileSize - (filePos + i))))⟩ v := by
  have hcopy := copySnippets_executes hlayout hwalk hrange expected (filePos + i)
    disk snip hi (show 0 < min snipLen (fileSize - (filePos + i)) by omega)
    (by omega)
  refine Runs.if_neg (by omega) ?_
  refine Runs.bind hcopy ?_
  simp only [Nat.sub_self, copyInto_none, Nat.sub_zero, Nat.add_zero]
  exact Runs.pure v _

/-- The loop compares what is left of the file, from `filePos` on. -/
theorem compareChain_executes_equal {first last : Nat} {l : List Nat}
    (hwalk : Walk v.link Live first l last) (hrange : ∀ c ∈ l, v.fs.InRange c)
    {expected : Buf} {fileSize snipLen filePos : Nat} {outputs : Outputs}
    (hequal : ∀ k < min (fileSize - filePos) (4096 * l.length),
      v.bytes l k = expected (filePos + k)) :
    Executes v (compareChain expected fileSize snipLen outputs first filePos)
      (0, outputs) v := by
  induction hwalk generalizing filePos with
  | stop hstop =>
      rw [compareChain]
      exact Runs.if_neg (fun h => hstop h.1) (Runs.pure v _)
  | @step c last l hlive _ ih =>
      rw [compareChain]
      by_cases hmore : filePos < fileSize
      · have hc := hrange c List.mem_cons_self
        rw [List.length_cons] at hequal
        refine Runs.if_pos ⟨hlive, hmore⟩ ?_
        refine Runs.bind (readCluster_executes v hc) ?_
        refine Runs.bind (getFs_executes v) ?_
        rw [hlayout.clusterBytes_eq]
        have hnone : firstDifference (v.data c) expected filePos
            (min (fileSize - filePos) 4096) 0 = none := by
          rw [firstDifference_none]
          intro k hk
          rw [Nat.zero_add, ← v.bytes_first c l (by omega)]
          exact hequal k (by omega)
        simp only [hnone]
        refine Runs.bind (getNextCluster_executes v hc.2) ?_
        refine ih (fun d hd => hrange d (List.mem_cons_of_mem _ hd)) fun k hk => ?_
        have hbyte := hequal (4096 + k) (by omega)
        rw [v.bytes_next] at hbyte
        rw [hbyte]
        congr 1
        omega
      · exact Runs.if_neg (fun h => hmore h.2) (Runs.pure v _)

theorem compareChain_executes_differ {first last : Nat} {l : List Nat}
    (hwalk : Walk v.link Live first l last) (hrange : ∀ c ∈ l, v.fs.InRange c)
    {expected : Buf} {fileSize snipLen offset : Nat} (filePos k : Nat)
    {disk snip : Buf} (hsnip : 0 < snipLen) (hfit : fileSize - filePos ≤ 4096 * l.length)
    (hk : filePos + k < fileSize)
    (hdiffer : v.bytes l k ≠ expected (filePos + k))
    (hequal : ∀ j < k, v.bytes l j = expected (filePos + j)) :
    Executes v (compareChain expected fileSize snipLen
        ⟨some offset, some disk, some snip⟩ first filePos)
      (-1, ⟨some (filePos + k),
        some (copyInto disk 0 (fun j => v.bytes l (k + j))
          (min snipLen (fileSize - (filePos + k)))),
        some (copyInto snip 0 (fun j => expected (filePos + k + j))
          (min snipLen (fileSize - (filePos + k))))⟩) v := by
  induction hwalk generalizing filePos k with
  | stop hstop =>
      rw [List.length_nil] at hfit
      omega
  | @step c last l hlive htail ih =>
      have hc := hrange c List.mem_cons_self
      rw [List.length_cons] at hfit
      rw [compareChain]
      refine Runs.if_pos ⟨hlive, by omega⟩ ?_
      refine Runs.bind (readCluster_executes v hc) ?_
      refine Runs.bind (getFs_executes v) ?_
      rw [hlayout.clusterBytes_eq]
      by_cases hhere : k < 4096
      · have hsome : firstDifference (v.data c) expected filePos
            (min (fileSize - filePos) 4096) 0 = some (0 + k) := by
          apply firstDifference_some (by omega)
          · rw [Nat.zero_add, ← v.bytes_first c l hhere]
            exact hdiffer
          · intro j hj
            rw [Nat.zero_add, ← v.bytes_first c l (by omega)]
            exact hequal j hj
        simp only [hsome, Nat.zero_add]
        refine Runs.bind (reportMismatch_executes hlayout (.step hlive htail) hrange
          expected hhere hsnip hk hfit) (Runs.pure v _)
      · -- the first difference lies behind this cluster
        obtain ⟨j, rfl⟩ := Nat.exists_eq_add_of_le (not_lt.mp hhere)
        have hchunk : min (fileSize - filePos) 4096 = 4096 := by omega
        have hnone : firstDifference (v.data c) expected filePos
            (min (fileSize - filePos) 4096) 0 = none := by
          rw [firstDifference_none]
          intro i hi
          rw [Nat.zero_add, ← v.bytes_first c l (by omega)]
          exact hequal i (by omega)
        simp only [hnone]
        refine Runs.bind (getNextCluster_executes v hc.2) ?_
        rw [hchunk]
        have hrest := ih (fun d hd => hrange d (List.mem_cons_of_mem _ hd))
          (filePos + 4096) j (by omega) (by omega)
          (by rw [← v.bytes_next c, Nat.add_assoc]; exact hdiffer)
          (fun i hi => by
            rw [← v.bytes_next c, Nat.add_assoc]
            exact hequal _ (by omega))
        have hshift : (fun i => v.bytes (c :: l) (4096 + j + i)) =
            fun i => v.bytes l (j + i) := by
          funext i
          rw [Nat.add_assoc, v.bytes_next]
        rw [hshift, show filePos + (4096 + j) = filePos + 4096 + j by omega]
        exact hrest

end Works

def Volume.contents (v : Volume) (p : Place) : Buf := fun k =>
  v.data (v.link^[k / 4096] (v.entry p).firstCluster) (k % 4096)

/-- The chain of every file is long enough for the size in its entry. -/
def Volume.HoldsFiles (v : Volume) : Prop :=
  ∀ p l, v.Reach (.entry p) → ¬ v.IsDir (.entry p) →
    v.Chain (v.first (.entry p)) l → (v.entry p).fileSize.toNat ≤ 4096 * l.length

theorem Volume.Regular.holdsFiles {v : Volume} (h : v.Regular) : v.HoldsFiles := by
  intro p l hp hfile hl
  rw [h.sized p l hp hfile hl, clustersFor]
  omega

/-- The first difference, and the two snippets from there on. -/
structure Pinpoints (contents expected : Buf) (size snipLen : Nat)
    (r : Int × Outputs) : Prop where
  status : r.1 = -1
  stored : ∃ k disk snip, r.2 = ⟨some k, some disk, some snip⟩ ∧
    IsLeast {k | k < size ∧ contents k ≠ expected k} k ∧
    ∀ j < min snipLen (size - k),
      disk j = contents (k + j) ∧ snip j = expected (k + j)

/--
On a well-formed volume `fat32_compare_file_in` finds the first difference to
an existing file of the same size, and no difference where there is none.
-/
theorem compareFileIn_pinpoints {s : System} {parent : Nat} {l : List Nat}
    {filename : List UInt8} {p : Place} (hs : s.device.FaultFree)
    (hlayout : s.fat32.fs.Layout) (hwf : (volumeOf s).WellFormed)
    (hholds : (volumeOf s).HoldsFiles) (hdir : (volumeOf s).Directory parent l)
    (hp : p ∈ places l) (hnamed : (volumeOf s).Named (nameToFat filename) p)
    (hfile : ¬ (volumeOf s).IsDir (.entry p)) (expected : Buf)
    {expectedSize snipLen : Nat}
    (hsize : ((volumeOf s).entry p).fileSize.toNat = expectedSize)
    (hsnip : 0 < snipLen) (offset : Nat) (disk snip : Buf) :
    ∃ r s', compareFileIn parent filename expected expectedSize
        ⟨some offset, some disk, some snip⟩ snipLen s = some (r, s') ∧
      ((∃ k < expectedSize, (volumeOf s).contents p k ≠ expected k) →
        Pinpoints ((volumeOf s).contents p) expected expectedSize snipLen r) ∧
      ((∀ k < expectedSize, (volumeOf s).contents p k = expected k) →
        r.1 = 0) := by
  have hrep : Represents s (volumeOf s) := represents_iff.mpr ⟨hs, hlayout, rfl⟩
  generalize volumeOf s = v at *
  have hlookup := (Volume.lookup_eq_some_iff (hdir.orderly hwf)).mpr ⟨hp, hnamed⟩
  obtain ⟨last, hwalk, -⟩ := hdir.chain.ends
  obtain ⟨n, hn, hisDir, rfl⟩ := hdir.live
  have hreach : v.Reach (.entry p) := .child hn ⟨hisDir, ⟨l, hdir.chain, hp⟩,
    hnamed.1, not_isDot_of_name hnamed.2.2⟩
  obtain ⟨cs, hcs⟩ := hwf.chain (.entry p) hreach
  have hfit := hholds p cs hreach hfile hcs
  rw [hsize] at hfit
  obtain ⟨last', hchain, -⟩ := hcs.ends
  have hcontents : ∀ k < expectedSize, v.bytes cs k = v.contents p k := by
    intro k hk
    rw [Volume.bytes, hchain.getD_eq_iterate (by omega)]
    rfl
  -- the call is the loop over the chain of the entry
  have hcall : ∀ r, Executes v (compareChain expected expectedSize snipLen
        ⟨some offset, some disk, some snip⟩ (v.entry p).firstCluster 0) r v →
      Executes v (compareFileIn (v.first n) filename expected expectedSize
        ⟨some offset, some disk, some snip⟩ snipLen) r v := by
    intro r hloop
    refine Runs.bind (getFs_executes v) (Runs.if_pos hrep.layout.initialized ?_)
    refine Runs.bind (findEntry_executes hrep.layout hwalk hdir.chain.inRange _) ?_
    rw [hlookup]
    refine Runs.if_neg (not_not.mpr hsize) ?_
    rw [← hsize] at hloop
    exact hloop
  by_cases hdiffer : ∃ k, k < expectedSize ∧ v.contents p k ≠ expected k
  · classical
    have hfound := Nat.find_spec hdiffer
    have hbefore : ∀ j < Nat.find hdiffer, v.contents p j = expected j := by
      intro j hj
      by_contra hne
      exact Nat.find_min hdiffer hj ⟨hj.trans hfound.1, hne⟩
    generalize hk : Nat.find hdiffer = k at hfound hbefore
    obtain ⟨s', hrun, -⟩ := hcall _ (compareChain_executes_differ hrep.layout
      hchain hcs.inRange 0 k hsnip (by omega) (by omega)
      (by rw [hcontents k hfound.1, Nat.zero_add]; exact hfound.2)
      (fun j hj => by
        rw [hcontents j (by omega), Nat.zero_add]
        exact hbefore j hj)) s hrep
    refine ⟨_, s', hrun, fun _ => ⟨rfl, _, _, _, rfl, ?_, ?_⟩, fun hequal => ?_⟩
    · rw [Nat.zero_add]
      refine ⟨hfound, fun j hj => ?_⟩
      by_contra hlt
      exact hj.2 (hbefore j (not_le.mp hlt))
    · intro j hj
      simp only [Nat.zero_add] at hj ⊢
      rw [copyInto, copyInto, if_pos ⟨Nat.zero_le _, by omega⟩,
        if_pos ⟨Nat.zero_le _, by omega⟩, Nat.sub_zero, hcontents _ (by omega)]
      exact ⟨rfl, rfl⟩
    · exact absurd (hequal k hfound.1) hfound.2
  · have hequal : ∀ k < expectedSize, v.contents p k = expected k := by
      intro k hk
      by_contra hne
      exact hdiffer ⟨k, hk, hne⟩
    obtain ⟨s', hrun, -⟩ := hcall _ (compareChain_executes_equal hrep.layout
      hchain hcs.inRange fun k hk => by
        rw [hcontents k (by omega), Nat.zero_add]
        exact hequal k (by omega)) s hrep
    refine ⟨_, s', hrun, ?_, fun _ => rfl⟩
    rintro ⟨k, hk, hne⟩
    exact absurd (hequal k hk) hne

theorem Volume.Site.contents {v : Volume} {n : Node} {l old : List Nat} {p : Place}
    {filename data : List UInt8} (h : v.Site n l old p filename)
    (hlow : ∀ c ∈ v.taken old data.length, c < eoc)
    (hlength : (v.taken old data.length).length = clustersFor data.length) {k : Nat}
    (hk : k < data.length) :
    (v.written p old (nameToFat filename) data).contents p k = Buf.ofList data k := by
  have hbound : k < 4096 * (v.taken old data.length).length := by
    rw [hlength, clustersFor]
    omega
  obtain ⟨last, hwalk, -⟩ := (h.chain_self hlow).ends
  rw [Volume.contents, ← hwalk.getD_eq_iterate (by omega) 0]
  exact h.byte data hbound

/-- The last of 4097 bytes differs, the only one in the second cluster. -/
theorem compareFileIn_pinpoints_in_second_cluster :
    ∃ (s s' : System) (r : Int × Outputs) (p : Place),
      ((volumeOf s).entry p).fileSize.toNat = 4097 ∧
      compareFileIn 2 roundFile (fun k => if k < 4096 then 7 else 0) 4097
        ⟨some 0, some fun _ => 0, some fun _ => 0⟩ 16 s = some (r, s') ∧
      Pinpoints ((volumeOf s).contents p) (fun k => if k < 4096 then 7 else 0)
        4097 16 r := by
  have h : Formattable (100 : UInt64).toNat := by decide
  obtain ⟨v, ⟨s, -, hrep⟩, hlayout, hfresh⟩ :=
    exists_reaches_fresh h none fun _ _ => True
  obtain ⟨data, hdata⟩ : ∃ data : List UInt8, data = List.replicate 4097 7 :=
    ⟨_, rfl⟩
  have hlength : data.length = 4097 := by
    rw [hdata, List.length_replicate]
  have hcount : clustersFor data.length = 1 + 1 := by
    rw [hlength]
    rfl
  obtain ⟨p, hsite, htaken, hexec, hregular, hdir⟩ :=
    (hfresh.leaked hlayout (by decide) : v.Leaked 8 0).store_root (by omega) hcount
      (by decide) (by decide)
  obtain ⟨s', -, hrep'⟩ := hexec s hrep
  have hsize : ((v.written p [] (nameToFat roundFile) data).entry p).fileSize.toNat =
      4097 := by
    rw [hsite.entry_self data, Volume.fileEntry_fileSize _ _ _ (by omega), hlength]
  have hfile : ¬ (v.written p [] (nameToFat roundFile) data).IsDir (.entry p) := by
    have hbits : attrArchive &&& attrDirectory = 0 := by decide
    simp [Volume.IsDir, hsite.entry_self data, Volume.fileEntry, DirEntry.HasAttr,
      DirEntry.make, hbits]
  obtain ⟨hmem, hnamed⟩ :=
    (Volume.lookup_eq_some_iff (hsite.orderly data)).mp (hsite.lookup data)
  have hlast : (v.written p [] (nameToFat roundFile) data).contents p 4096 =
      Buf.ofList data 4096 :=
    hsite.contents (by rw [htaken]; decide) (by rw [htaken, hcount]; rfl) (by omega)
  generalize v.written p [] (nameToFat roundFile) data = w at *
  obtain ⟨hs, hlayout', rfl⟩ := represents_iff.mp hrep'
  obtain ⟨r, t, hrun, hpin, -⟩ := compareFileIn_pinpoints hs hlayout'
    hregular.wellFormed hregular.holdsFiles hdir hmem hnamed hfile
    (fun k => if k < 4096 then 7 else 0) hsize (show 0 < 16 by decide) 0
    (fun _ => 0) fun _ => 0
  refine ⟨s', t, r, p, hsize, hrun, hpin ⟨4096, by decide, ?_⟩⟩
  have hseven : data[4096]? = some 7 := by
    rw [hdata, List.getElem?_replicate, if_pos (by decide)]
  simp [hlast, Buf.ofList, hseven]

end EntropyOS.Fat32
