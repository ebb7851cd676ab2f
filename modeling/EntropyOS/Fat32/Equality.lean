import EntropyOS.Fat32.Compare
import EntropyOS.Fat32.Truthful

/-!
# Comparisons that report equality

`fat32_compare_file_in` compares the clusters it finds on the chain.  It returns
0 when it comes to the end of the chain as well as at the end of the file.
-/

namespace EntropyOS.Fat32

open EntropyOS.Foundation

theorem compareChain_stop {s : System} {expected : Buf}
    {fileSize snipLen cluster filePos : Nat} {outputs : Outputs}
    (hstop : ¬ (Live cluster ∧ filePos < fileSize)) :
    compareChain expected fileSize snipLen outputs cluster filePos s =
      some ((0, outputs), s) := by
  rw [compareChain, if_neg hstop]
  rfl

/-- Behind its first cluster, a chain goes on as the chain of its link. -/
theorem chainData_next {s : System} {n cluster next remaining count k : Nat}
    (h : Visits s n next remaining count)
    (hnext : Live next → next = linkOf s cluster)
    (hk : k < count * s.fat32.fs.clusterBytes) :
    chainData s cluster (k + s.fat32.fs.clusterBytes) = chainData s next k := by
  have hbytes : 0 < s.fat32.fs.clusterBytes := by
    by_contra hzero
    simp [Nat.eq_zero_of_not_pos hzero] at hk
  have hindex : k / s.fat32.fs.clusterBytes < count :=
    Nat.div_lt_of_lt_mul (by rwa [Nat.mul_comm])
  rw [chainData, chainData, Nat.add_div_right _ hbytes, Nat.add_mod_right,
    h.iterate_next hnext hindex]

/--
A loop that finds no difference has compared the clusters it visits, and does
not depend on what is expected behind them.
-/
theorem compareChain_equal {s u s' : System} (hmounted : Mounted s)
    {expected : Buf} {fileSize snipLen cluster filePos n : Nat}
    {outputs outputs' : Outputs} (hu : Live cluster → u = s.skip n)
    (h : compareChain expected fileSize snipLen outputs cluster filePos u =
      some ((0, outputs'), s')) :
    ∃ count, Visits s n cluster (fileSize - filePos) count ∧
      (∀ k < min (fileSize - filePos) (count * s.fat32.fs.clusterBytes),
        expected (filePos + k) = chainData s cluster k) ∧
      ∀ other : Buf,
        (∀ k < min (fileSize - filePos) (count * s.fat32.fs.clusterBytes),
          other (filePos + k) = expected (filePos + k)) →
        compareChain other fileSize snipLen outputs cluster filePos u =
          some ((0, outputs), s') := by
  have hbytes := hmounted.clusterBytes_pos
  induction hremaining : fileSize - filePos using Nat.strong_induction_on
      generalizing n cluster filePos u with
  | h remaining ih =>
      subst hremaining
      by_cases hmore : Live cluster ∧ filePos < fileSize
      · obtain rfl := hu hmore.1
        rw [compareChain, if_pos hmore] at h
        obtain ⟨read, middle, hread, h⟩ := Program.exists_of_bind h
        cases read with
        | none =>
            obtain ⟨-, middle, -, h⟩ := Program.exists_of_bind h
            simp at h
        | some buf =>
            obtain ⟨hs, rfl, rfl⟩ := readCluster_skip hmounted.one_le hread
            obtain ⟨fs, middle, hfs, h⟩ := Program.exists_of_bind h
            obtain ⟨rfl, rfl⟩ := Prod.mk.inj (Option.some.inj hfs)
            simp only [System.skip_fat32] at h
            generalize hchunk :
              min (fileSize - filePos) s.fat32.fs.clusterBytes = chunk at h
            cases hfirst : firstDifference (clusterData s cluster) expected filePos
                chunk 0 with
            | some i =>
                rw [hfirst] at h
                obtain ⟨_, middle, -, h⟩ := Program.exists_of_bind h
                simp at h
            | none =>
                rw [hfirst] at h
                obtain ⟨next, middle, hnext, h⟩ := Program.exists_of_bind h
                obtain ⟨hat, hlink⟩ := getNextCluster_nextAt hs hnext
                obtain ⟨count, hvisits, hsame, hother⟩ :=
                  ih (fileSize - (filePos + chunk)) (by omega)
                    (fun hlive => (hlink hlive).2) h rfl
                have hrest : fileSize - (filePos + chunk) =
                    fileSize - filePos - min (fileSize - filePos)
                      s.fat32.fs.clusterBytes := by omega
                rw [firstDifference_none] at hfirst
                simp only [Nat.zero_add] at hfirst
                refine ⟨count + 1, .step hmore.1 (by omega) ?_, ?_, ?_⟩
                · rw [← hat, ← hrest]
                  exact hvisits
                · intro k hk
                  rw [Nat.succ_mul] at hk
                  by_cases hhere : k < chunk
                  · rw [← hfirst k hhere, chainData, Nat.div_eq_of_lt (by omega),
                      Nat.mod_eq_of_lt (by omega)]
                    rfl
                  · -- the byte was compared in a later round
                    obtain rfl : chunk = s.fat32.fs.clusterBytes := by omega
                    obtain ⟨j, rfl⟩ := Nat.exists_eq_add_of_le' (not_lt.mp hhere)
                    rw [chainData_next hvisits (fun hlive => (hlink hlive).1)
                      (by omega), ← hsame j (by omega)]
                    congr 1
                    omega
                · intro other hagree
                  rw [Nat.succ_mul] at hagree
                  have hnone : firstDifference (clusterData s cluster) other filePos
                      chunk 0 = none := by
                    rw [firstDifference_none]
                    intro k hk
                    rw [Nat.zero_add, hfirst k hk, hagree k (by omega)]
                  have hlater := hother other fun k hk => by
                    have hk' := hagree (k + chunk) (by omega)
                    rwa [show filePos + (k + chunk) = filePos + chunk + k by omega]
                      at hk'
                  rw [compareChain, if_pos hmore, Program.bind_of_some hread]
                  refine (Program.bind_of_some hfs).trans ?_
                  simp only [System.skip_fat32, hchunk, hnone]
                  exact (Program.bind_of_some hnext).trans hlater
      · rw [compareChain_stop hmore] at h
        obtain ⟨-, rfl⟩ := Prod.mk.inj (Option.some.inj h)
        refine ⟨0, .stop (fun hlive => hmore ⟨hlive.1, by omega⟩), by simp,
          fun other _ => compareChain_stop hmore⟩

/--
Whatever is expected, a call that returns 0 has found as many bytes recorded in
the entry, and each of them on the chain at `first`.
-/
def ComparesEverything (s : System) (parent : Nat) (filename : List UInt8)
    (expectedSize recorded first : Nat) : Prop :=
  ∀ (expected : Buf) (outputs : Outputs) (snipLen : Nat) (r : Int × Outputs)
    (s' : System),
    compareFileIn parent filename expected expectedSize outputs snipLen s =
      some (r, s') → r.1 = 0 →
    recorded = expectedSize ∧
      ∀ k < expectedSize, ChainByte s first k (expected k)

section Call

variable {s t : System} {parent expectedSize : Nat} {filename : List UInt8}
  {found : Located}

theorem compareFileIn_found_apply (hmounted : Mounted s)
    (hfound : findEntry parent (nameToFat filename) s = some (some found, t))
    (expected : Buf) (outputs : Outputs) (snipLen : Nat) :
    compareFileIn parent filename expected expectedSize outputs snipLen s =
      if found.entry.fileSize.toNat ≠ expectedSize then
        some ((-1, { outputs with
          mismatchOffset := outputs.mismatchOffset.map fun _ =>
            min found.entry.fileSize.toNat expectedSize }), t)
      else compareChain expected found.entry.fileSize.toNat snipLen outputs
        found.entry.firstCluster 0 t := by
  unfold compareFileIn
  rw [Program.bind_of_some (getFs_apply s), hmounted.initialized]
  change (findEntry parent (nameToFat filename) >>= _) s = _
  rw [Program.bind_of_some hfound]
  by_cases hsize : found.entry.fileSize.toNat = expectedSize
  · simp only [hsize, ne_eq, not_true_eq_false, if_false]
  · simp only [hsize, ne_eq, not_false_eq_true, if_true]
    rfl

/--
`fat32_compare_file_in` has compared every byte when it reports equality if and
only if the chain, as the driver can follow it, holds all of them.
-/
theorem compareFileIn_equal_iff (hmounted : Mounted s)
    (hfound : findEntry parent (nameToFat filename) s = some (some found, t))
    {expected : Buf} {outputs : Outputs} {snipLen : Nat} {r : Int × Outputs}
    {s' : System}
    (hrun : compareFileIn parent filename expected expectedSize outputs snipLen s =
      some (r, s')) (hok : r.1 = 0) :
    ComparesEverything s parent filename expectedSize
        found.entry.fileSize.toNat found.entry.firstCluster ↔
      Covers t 0 found.entry.firstCluster expectedSize := by
  obtain ⟨-, n, rfl⟩ := findEntry_some _ _ _ _ _ hfound hmounted.one_le rfl
  have hcompares := @compareFileIn_found_apply s _ parent expectedSize filename
    found hmounted hfound
  -- only equal sizes get as far as the loop
  have hloop : ∀ {expected : Buf} {outputs : Outputs} {snipLen : Nat}
      {r : Int × Outputs} {s' : System},
      compareFileIn parent filename expected expectedSize outputs snipLen s =
        some (r, s') → r.1 = 0 →
      found.entry.fileSize.toNat = expectedSize ∧
        compareChain expected expectedSize snipLen outputs
          found.entry.firstCluster 0 (s.skip n) = some ((0, r.2), s') := by
    intro expected outputs snipLen r s' hrun hok
    rw [hcompares] at hrun
    by_cases hsize : found.entry.fileSize.toNat = expectedSize
    · rw [if_neg (not_not.mpr hsize), hsize] at hrun
      rw [← hok]
      exact ⟨hsize, hrun⟩
    · rw [if_pos hsize] at hrun
      obtain ⟨rfl, -⟩ := Prod.mk.inj (Option.some.inj hrun)
      simp at hok
  obtain ⟨hsize, hchain⟩ := hloop hrun hok
  obtain ⟨count, hvisits, -, hother⟩ :=
    compareChain_equal (hmounted.skip n) (n := 0) (fun _ => rfl) hchain
  rw [Nat.sub_zero] at hvisits hother
  rw [← hvisits.covers_iff]
  constructor
  · intro heverything
    by_contra hshort
    -- a byte behind the clusters may as well be expected to be another
    have hleft : ∀ byte : UInt8, byte = chainData s found.entry.firstCluster
        (count * s.fat32.fs.clusterBytes) := by
      intro byte
      have hagain := hother
        (Function.update expected (count * s.fat32.fs.clusterBytes) byte)
        fun k hk => by
          rw [Nat.zero_add]
          refine Function.update_of_ne ?_ _ _
          simp only [System.skip_fat32] at hk
          omega
      have hbyte := (heverything _ outputs snipLen (0, outputs) s'
        (by rw [hcompares, if_neg (not_not.mpr hsize), hsize]; exact hagain)
        rfl).2 (count * s.fat32.fs.clusterBytes) (not_le.mp hshort)
      rw [Function.update_self] at hbyte
      exact hbyte.stored
    exact absurd ((hleft 0).trans (hleft 1).symm) (by decide)
  · intro hcovered expected outputs snipLen r s' hrun hok
    refine ⟨hsize, fun k hk => ?_⟩
    obtain ⟨-, hchain⟩ := hloop hrun hok
    obtain ⟨count', hvisits', hsame, -⟩ :=
      compareChain_equal (hmounted.skip n) (n := 0) (fun _ => rfl) hchain
    rw [Nat.sub_zero] at hvisits' hsame
    have hcovered' := hvisits'.covers_iff.mpr (hvisits.covers_iff.mp hcovered)
    have hbyte := hvisits'.chainByte (lt_of_lt_of_le hk hcovered')
    have hequal := hsame k (lt_min hk (lt_of_lt_of_le hk hcovered'))
    rw [Nat.zero_add] at hequal
    rw [hequal]
    exact ⟨hbyte.live, hbyte.stored⟩

end Call

/-! ## Two files of one byte -/

/-- The file of one byte equals something, wherever its chain starts. -/
theorem exists_odd_compare {cluster : Nat} (hcluster : cluster = 0 ∨ cluster = 2) :
    ∃ s t s' expected outputs,
      init (.startup (diskWithEntry (oddEntry cluster))) = some (0, s) ∧
      Mounted s ∧
      findEntry 2 (nameToFat roundFile) s =
        some (some ⟨oddEntry cluster, 2, 0⟩, t) ∧
      compareFileIn 2 roundFile expected 1 outputs 0 s =
        some ((0, outputs), s') := by
  obtain ⟨s, t, v, l, last, hinit, hmounted, hfind, ht, hwalk, hrange⟩ :=
    exists_odd_file hcluster
  have hequal : Executes v (compareChain (v.bytes l) 1 0 ⟨none, none, none⟩
      (oddEntry cluster).firstCluster 0) (0, ⟨none, none, none⟩) v :=
    compareChain_executes_equal ht.layout hwalk hrange
      fun k _ => congrArg (v.bytes l) (Nat.zero_add k).symm
  obtain ⟨s', hcompare, -⟩ := hequal t ht
  have hsize : (oddEntry cluster).fileSize.toNat = 1 := rfl
  refine ⟨s, t, s', v.bytes l, ⟨none, none, none⟩, hinit, hmounted, hfind, ?_⟩
  rw [compareFileIn_found_apply hmounted hfind]
  exact (if_neg (not_not.mpr hsize)).trans hcompare

theorem compareFileIn_equal_of_root_cluster :
    ∃ s t s' expected outputs, ∃ found : Located,
      compareFileIn 2 roundFile expected 1 outputs 0 s = some ((0, outputs), s') ∧
      (ComparesEverything s 2 roundFile 1 found.entry.fileSize.toNat
          found.entry.firstCluster ↔
        Covers t 0 found.entry.firstCluster 1) := by
  obtain ⟨s, t, s', expected, outputs, -, hmounted, hfind, hrun⟩ :=
    exists_odd_compare (.inr rfl)
  exact ⟨s, t, s', expected, outputs, _, hrun,
    compareFileIn_equal_iff hmounted hfind hrun rfl⟩

/-- A file of one byte that has no cluster equals every buffer of one byte. -/
theorem byte_equal_but_not_read :
    ¬ ∀ (start s t s' : System) (parent expectedSize snipLen : Nat)
      (filename : List UInt8) (found : Located) (expected : Buf)
      (outputs : Outputs) (r : Int × Outputs),
      init start = some (0, s) → Mounted s →
      findEntry parent (nameToFat filename) s = some (some found, t) →
      compareFileIn parent filename expected expectedSize outputs snipLen s =
        some (r, s') → r.1 = 0 →
      found.entry.fileSize.toNat = expectedSize ∧
        ∀ k < expectedSize,
          ChainByte s found.entry.firstCluster k (expected k) := by
  intro hclaim
  obtain ⟨s, t, s', expected, outputs, hinit, hmounted, hfind, hrun⟩ :=
    exists_odd_compare (.inl rfl)
  have hbyte := (hclaim _ s t s' 2 1 0 roundFile _ expected outputs _ hinit hmounted
    hfind hrun rfl).2 0 Nat.one_pos
  have hlive : Live (oddEntry 0).firstCluster := hbyte.live 0 (Nat.zero_le _)
  exact absurd hlive (by decide)

end EntropyOS.Fat32
