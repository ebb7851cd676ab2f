import EntropyOS.Libexfat.BootRegion
import EntropyOS.Libexfat.View

/-!
# What the checksum of the boot region is good for

The check of a mount accepts a region if and only if the last sector repeats the
checksum of the others.  A region that is accepted is refused after any change of
one byte, apart from the bytes that every mount writes.
-/

namespace EntropyOS.Libexfat

open EntropyOS.Foundation

/-- The last of the twelve sectors holds the checksum of the others, in every word. -/
def VolumeOn.Verified (v : View) : Prop :=
  ∀ i < v.sb.sectorSize / 4, readLe v.dev (v.sb.sectorSize * 11 + 4 * i) 4 =
    (vbrChecksum v.dev v.sb.sectorSize).toNat

instance (v : View) : Decidable v.Verified :=
  inferInstanceAs (Decidable (∀ _ < _, _))

theorem vbrAddChecksum_congr {sector sector' : Buf} {size : Nat} (sum : UInt32)
    (h : ∀ k < size, sector k = sector' k) :
    vbrAddChecksum sector size sum = vbrAddChecksum sector' size sum :=
  List.foldl_ext _ _ _ fun sum k hk => by rw [h k (List.mem_range.mp hk)]

theorem vbrStartChecksum_congr {sector sector' : Buf} {size : Nat}
    (h : ∀ k < size, sector k = sector' k) :
    vbrStartChecksum sector size = vbrStartChecksum sector' size :=
  List.foldl_ext _ _ _ fun sum k hk => by rw [h k (List.mem_range.mp hk)]

section Runs

variable {v : View}

theorem askToFix_runs (hrepair : v.repair = .no) : Runs Shows v askToFix false v := by
  refine get_runs fun d => ?_
  simpa [hrepair] using Runs.pure (R := Shows) v false

theorem verifyVbrWord_fine (sum : UInt32) {i : Nat} {sector : Buf}
    (hword : readLe sector (4 * i) 4 = sum.toNat) :
    Runs Shows v (verifyVbrWord sum i sector) (true, sector) v :=
  Runs.if_neg (not_not.mpr hword) (Runs.pure v _)

theorem verifyVbrWords_fine (sum : UInt32) {sector : Buf} (rounds i : Nat)
    (hall : ∀ j < rounds, readLe sector (4 * (i + j)) 4 = sum.toNat) :
    Runs Shows v (verifyVbrWords sum rounds i sector) (true, sector) v := by
  induction rounds generalizing i with
  | zero => exact Runs.pure v _
  | succ rounds ih =>
      refine (verifyVbrWord_fine sum (hall 0 (by omega))).bind
        (Runs.if_pos rfl (ih (i + 1) fun j hj => ?_))
      rw [show i + 1 + j = i + (j + 1) by omega]
      exact hall (j + 1) (by omega)

/-- With repair off, the first wrong word is the end of the check. -/
theorem verifyVbrWords_runs (hrepair : v.repair = .no) (sum : UInt32) (rounds i : Nat)
    (sector : Buf) :
    ∃ fine v', Runs Shows v (verifyVbrWords sum rounds i sector) (fine, sector) v' ∧
      (fine = true ↔ ∀ j < rounds, readLe sector (4 * (i + j)) 4 = sum.toNat) := by
  induction rounds generalizing i with
  | zero => exact ⟨true, v, Runs.pure v _, by simp⟩
  | succ rounds ih =>
      by_cases hword : readLe sector (4 * i) 4 = sum.toNat
      · obtain ⟨fine, v', hrun, hfine⟩ := ih (i + 1)
        refine ⟨fine, v', (verifyVbrWord_fine sum hword).bind (Runs.if_pos rfl hrun), ?_⟩
        rw [hfine, Nat.forall_lt_succ_left]
        simp [hword, Nat.add_assoc, Nat.add_comm 1]
      · have hask : Runs Shows v.countError askToFix false v.countError :=
          askToFix_runs hrepair
        have hstep : Runs Shows v (verifyVbrWord sum i sector) (false, sector) v.countError :=
          Runs.if_pos hword ((exfatError_runs _).bind
            (hask.bind (Runs.if_neg (by simp) (Runs.pure _ _))))
        refine ⟨false, _, hstep.bind (Runs.if_neg (by simp) (Runs.pure _ _)), ?_⟩
        simp only [Bool.false_eq_true, false_iff]
        exact fun hall => hword (hall 0 (by omega))

theorem readVbrSectors_runs {size : Nat} (hsize : size ≤ 2 ^ 25) (rounds i : Nat)
    (hend : i + rounds ≤ 11) (sector : Buf) (sum : UInt32) :
    ∃ sector', Runs Shows v (readVbrSectors size rounds i sector sum)
      (some (vbrAddSectors v.dev size rounds i sum), sector') v := by
  induction rounds generalizing i sector sum with
  | zero => exact ⟨sector, Runs.pure v _⟩
  | succ rounds ih =>
      have hread := pread_runs (v := v) sector
        (show i * size + size < 2 ^ 63 by
          have hle : (i + 1) * size ≤ 11 * size := Nat.mul_le_mul_right _ (by omega)
          rw [Nat.succ_mul] at hle
          omega)
      have hsum : vbrAddChecksum (sector.overlay 0 size fun k => v.dev (i * size + k)) size
          sum = vbrAddChecksum (fun k => v.dev (size * i + k)) size sum :=
        vbrAddChecksum_congr sum fun k hk => by simp [Buf.overlay, hk, Nat.mul_comm]
      obtain ⟨sector', hrest⟩ := ih (i + 1) (by omega)
        (sector.overlay 0 size fun k => v.dev (i * size + k))
        (vbrAddChecksum (fun k => v.dev (size * i + k)) size sum)
      refine ⟨sector', hread.bind (Runs.if_neg (by omega) ?_)⟩
      rw [hsum]
      exact hrest

/-- The check comes to the words of the last sector, with the sum of the ones before. -/
theorem verifyVbrChecksum_of_words (hbits : v.sb.sectorBits ≤ 25) (sector : Buf) :
    ∃ last : Buf, (∀ k < v.sb.sectorSize, v.dev (v.sb.sectorSize * 11 + k) = last k) ∧
      ∀ {r : Bool × Buf} {v' : View}, Runs Shows v (verifyVbrWords
        (vbrChecksum v.dev v.sb.sectorSize) (v.sb.sectorSize / 4) 0 last) r v' →
      Runs Shows v (verifyVbrChecksum sector) r v' := by
  have hsize : v.sb.sectorSize ≤ 2 ^ 25 := Nat.pow_le_pow_right (by omega) hbits
  have hfirst := pread_runs (v := v) sector (show 0 + v.sb.sectorSize < 2 ^ 63 by omega)
  have hstart : vbrStartChecksum (sector.overlay 0 v.sb.sectorSize fun k => v.dev (0 + k))
      v.sb.sectorSize = vbrStartChecksum v.dev v.sb.sectorSize :=
    vbrStartChecksum_congr fun k hk => by simp [Buf.overlay, hk]
  obtain ⟨middle, hmiddle⟩ := readVbrSectors_runs (v := v) hsize 10 1 (by omega)
    (sector.overlay 0 v.sb.sectorSize fun k => v.dev (0 + k))
    (vbrStartChecksum v.dev v.sb.sectorSize)
  have hlast := pread_runs (v := v) middle
    (show 11 * v.sb.sectorSize + v.sb.sectorSize < 2 ^ 63 by omega)
  let last := middle.overlay 0 v.sb.sectorSize fun k => v.dev (11 * v.sb.sectorSize + k)
  refine ⟨last, fun k hk => ?_, fun hwords => get_runs fun d => ?_⟩
  · simp [last, Buf.overlay, hk, Nat.mul_comm]
  · refine hfirst.bind (Runs.if_neg (by omega) ?_)
    rw [hstart]
    exact hmiddle.bind (hlast.bind (Runs.if_neg (by omega) hwords))

theorem verified_iff_words {last : Buf}
    (hlast : ∀ k < v.sb.sectorSize, v.dev (v.sb.sectorSize * 11 + k) = last k) :
    v.Verified ↔ ∀ i < v.sb.sectorSize / 4, readLe last (4 * (0 + i)) 4 =
      (vbrChecksum v.dev v.sb.sectorSize).toNat := by
  refine forall₂_congr fun i hi => ?_
  have hword : readLe last (4 * (0 + i)) 4 = readLe v.dev (v.sb.sectorSize * 11 + 4 * i) 4 :=
    readLe_congr fun j hj => by
      rw [Nat.zero_add, Nat.add_assoc, hlast _ (by omega)]
  rw [hword]

/-- The check accepts the regions that are verified, and no others. -/
theorem verifyVbrChecksum_runs (hbits : v.sb.sectorBits ≤ 25) (hrepair : v.repair = .no)
    (sector : Buf) :
    ∃ fine sector' v', Runs Shows v (verifyVbrChecksum sector) (fine, sector') v' ∧
      (fine = true ↔ v.Verified) := by
  obtain ⟨last, hlast, hrest⟩ := verifyVbrChecksum_of_words hbits sector
  obtain ⟨fine, v', hwords, hfine⟩ := verifyVbrWords_runs hrepair
    (vbrChecksum v.dev v.sb.sectorSize) (v.sb.sectorSize / 4) 0 last
  exact ⟨fine, last, v', hrest hwords, hfine.trans (verified_iff_words hlast).symm⟩

end Runs

/-! ## One byte that is different -/

section Change

variable {v v' : View}

/-- Only the bytes that may change make no difference. -/
theorem VolumeOn.Verified.of_agrees (h : v.Verified)
    (hsize : v'.sb.sectorSize = v.sb.sectorSize) (hlarge : 0x71 ≤ v.sb.sectorSize)
    (hsame : ∀ k < v.sb.sectorSize * 12, ¬ VbrSkipped k → v'.dev k = v.dev k) :
    v'.Verified := by
  have hsum : vbrChecksum v'.dev v.sb.sectorSize = vbrChecksum v.dev v.sb.sectorSize :=
    vbrChecksum_congr hlarge fun k hk => by
      obtain ⟨hlt, hkept⟩ := mem_vbrSummed.mp hk
      exact hsame k (by omega) hkept
  intro i hi
  rw [hsize] at hi ⊢
  rw [hsum, ← h i hi]
  exact readLe_congr fun j hj => hsame _ (by omega) (by omega)

/-- A changed word of the last sector is not the checksum any more. -/
theorem not_verified_of_word {k : Nat} (hverified : v.Verified)
    (hsb : v'.sb.sectorBits = v.sb.sectorBits) (hbits : 9 ≤ v.sb.sectorBits)
    (hk : v.sb.sectorSize * 11 ≤ k ∧ k < v.sb.sectorSize * 12) (hne : v'.dev k ≠ v.dev k)
    (hsum : vbrChecksum v'.dev v.sb.sectorSize = vbrChecksum v.dev v.sb.sectorSize) :
    ¬ v'.Verified := by
  intro hverified'
  have hsize : v'.sb.sectorSize = v.sb.sectorSize := congrArg (2 ^ ·) hsb
  obtain ⟨r, hr⟩ : 4 ∣ v.sb.sectorSize :=
    Nat.pow_dvd_pow 2 (show 2 ≤ v.sb.sectorBits by omega)
  let i := (k - v.sb.sectorSize * 11) / 4
  have hi : i < v.sb.sectorSize / 4 := by omega
  have hold := hverified i hi
  have hnew := hverified' i (by rwa [hsize])
  rw [hsize, hsum, ← hold] at hnew
  have hbyte := byteOf_readLe v.dev (v.sb.sectorSize * 11 + 4 * i)
    (show (k - v.sb.sectorSize * 11) % 4 < 4 by omega)
  have hbyte' := byteOf_readLe v'.dev (v.sb.sectorSize * 11 + 4 * i)
    (show (k - v.sb.sectorSize * 11) % 4 < 4 by omega)
  rw [hnew, hbyte] at hbyte'
  rw [show v.sb.sectorSize * 11 + 4 * i + (k - v.sb.sectorSize * 11) % 4 = k by omega] at hbyte'
  exact hne hbyte'.symm

theorem verified_iff_skipped {k : Nat} (hverified : v.Verified)
    (hsb : v'.sb.sectorBits = v.sb.sectorBits) (hbits : 9 ≤ v.sb.sectorBits)
    (hk : k < v.sb.sectorSize * 12) (hne : v'.dev k ≠ v.dev k)
    (hsame : ∀ j, j ≠ k → v'.dev j = v.dev j) : v'.Verified ↔ VbrSkipped k := by
  have hsize : v'.sb.sectorSize = v.sb.sectorSize := congrArg (2 ^ ·) hsb
  have hlarge : 2 ^ 9 ≤ v.sb.sectorSize := Nat.pow_le_pow_right (by omega) hbits
  by_cases hskip : VbrSkipped k
  · refine iff_of_true (hverified.of_agrees hsize (by omega) fun j _ hj => hsame j ?_) hskip
    rintro rfl
    exact hj hskip
  refine iff_of_false ?_ hskip
  by_cases hword : v.sb.sectorSize * 11 ≤ k
  · refine not_verified_of_word hverified hsb hbits ⟨hword, hk⟩ hne ?_
    refine vbrChecksum_congr (by omega) fun j hj => hsame j ?_
    rintro rfl
    have hlt := (mem_vbrSummed.mp hj).1
    omega
  · have hchanged := vbrChecksum_ne (show 0x71 ≤ v.sb.sectorSize by omega)
      (mem_vbrSummed.mpr ⟨by omega, hskip⟩) hne hsame
    intro hverified'
    have hold := hverified 0 (by omega)
    have hnew := hverified' 0 (by rw [hsize]; omega)
    have hword : readLe v'.dev (v.sb.sectorSize * 11 + 4 * 0) 4 =
        readLe v.dev (v.sb.sectorSize * 11 + 4 * 0) 4 :=
      readLe_congr fun i hi => hsame _ (by omega)
    rw [hsize, hword, hold] at hnew
    exact hchanged (UInt32.toNat_inj.mp hnew.symm)

end Change

/--
Change one byte of the twelve sectors of an accepted boot region: it is accepted again
if and only if the byte is one that changes while the volume is in use.
-/
theorem boot_region_guarded {ef ef' : Volume} {v v' : View} (hshows : Shows ef v)
    (hshows' : Shows ef' v') (hbits : 9 ≤ v.sb.sectorBits ∧ v.sb.sectorBits ≤ 25)
    (hsb : v'.sb.sectorBits = v.sb.sectorBits) (hrepair : v.repair = .no)
    (hrepair' : v'.repair = .no) {sector after : Buf}
    (haccepted : Returns (verifyVbrChecksum sector) ef (true, after)) {k : Nat}
    (hk : k < v.sb.sectorSize * 12) (hne : v'.dev k ≠ v.dev k)
    (hsame : ∀ j, j ≠ k → v'.dev j = v.dev j) (sector' : Buf) :
    ∃ fine after', Returns (verifyVbrChecksum sector') ef' (fine, after') ∧
      (fine = true ↔ VbrSkipped k) := by
  obtain ⟨fine, last, _, hrun, hfine⟩ := verifyVbrChecksum_runs hbits.2 hrepair sector
  have heq : fine = true := (congrArg Prod.fst ((hrun.returns hshows).unique haccepted))
  obtain ⟨fine', after', _, hrun', hfine'⟩ :=
    verifyVbrChecksum_runs (hsb ▸ hbits.2) hrepair' sector'
  refine ⟨fine', after', hrun'.returns hshows', ?_⟩
  rw [hfine', verified_iff_skipped (hfine.mp heq) hsb hbits.1 hk hne hsame]

/-! ## Repair -/

theorem readLe_foldl_storeLe (sector : Buf) {value count j : Nat} (hvalue : value < 256 ^ 4)
    (hj : j < count) :
    readLe ((List.range count).foldl (fun sector i => storeLe sector (4 * i) 4 value) sector)
      (4 * j) 4 = value := by
  induction count with
  | zero => omega
  | succ count ih =>
      rw [List.range_succ, List.foldl_append, List.foldl_cons, List.foldl_nil]
      by_cases hlast : j = count
      · rw [hlast, readLe_storeLe_same, Nat.mod_eq_of_lt hvalue]
      · rw [readLe_storeLe_disjoint _ (by omega), ih (by omega)]

def fillSector (sector : Buf) (size : Nat) (sum : UInt32) : Buf :=
  (List.range (size / 4)).foldl (fun sector i => storeLe sector (4 * i) 4 sum.toNat) sector

def VolumeOn.repaired (v : View) (sector : Buf) (sum : UInt32) : View :=
  (v.countError.store (11 * v.sb.sectorSize) v.sb.sectorSize
    (fillSector sector v.sb.sectorSize sum)).countFixed

section Repair

variable {v : View} {sector : Buf}

theorem askToFix_repairs (hrepair : v.repair = .yes) : Runs Shows v askToFix true v := by
  refine get_runs fun d => ?_
  simpa [hrepair] using Runs.pure (R := Shows) v true

/-- A wrong word is written anew with all the others. -/
theorem verifyVbrWord_repairs (sum : UInt32) (hbits : v.sb.sectorBits ≤ 25)
    (hrepair : v.repair = .yes) {i : Nat} (hword : readLe sector (4 * i) 4 ≠ sum.toNat) :
    Runs Shows v (verifyVbrWord sum i sector)
      (true, fillSector sector v.sb.sectorSize sum) (v.repaired sector sum) := by
  have hsize : v.sb.sectorSize ≤ 2 ^ 25 := Nat.pow_le_pow_right (by omega) hbits
  have hask : Runs Shows v.countError askToFix true v.countError := askToFix_repairs hrepair
  have hend : 11 * v.sb.sectorSize + v.sb.sectorSize < 2 ^ 63 := by omega
  have hwrite := pwrite_runs (v := v.countError) (fillSector sector v.sb.sectorSize sum) hend
  refine Runs.if_pos hword ((exfatError_runs _).bind (hask.bind (Runs.if_pos rfl ?_)))
  refine get_runs fun d => hwrite.bind (Runs.if_neg (by omega) ?_)
  exact countFixed_runs.bind (Runs.pure _ _)

theorem verifyVbrWords_repairs (sum : UInt32) (hbits : v.sb.sectorBits ≤ 25)
    (hrepair : v.repair = .yes) (rounds i : Nat) (hend : i + rounds ≤ v.sb.sectorSize / 4)
    (hwrong : ∃ j < rounds, readLe sector (4 * (i + j)) 4 ≠ sum.toNat) :
    Runs Shows v (verifyVbrWords sum rounds i sector)
      (true, fillSector sector v.sb.sectorSize sum) (v.repaired sector sum) := by
  induction rounds generalizing i with
  | zero => simp at hwrong
  | succ rounds ih =>
      by_cases hword : readLe sector (4 * i) 4 = sum.toNat
      · refine (verifyVbrWord_fine sum hword).bind (Runs.if_pos rfl (ih (i + 1) (by omega) ?_))
        obtain ⟨j, hj, hne⟩ := hwrong
        cases j with
        | zero => exact absurd hword hne
        | succ j =>
            refine ⟨j, by omega, ?_⟩
            rwa [show i + 1 + j = i + (j + 1) by omega]
      · refine (verifyVbrWord_repairs sum hbits hrepair hword).bind (Runs.if_pos rfl ?_)
        exact verifyVbrWords_fine sum rounds (i + 1) fun j hj =>
          readLe_foldl_storeLe sector sum.toNat_lt (by omega)

/-- The checksum sector is all that a repair changes, and the region is verified then. -/
theorem VolumeOn.repaired_verified (hlarge : 0x71 ≤ v.sb.sectorSize) (sector : Buf) :
    (v.repaired sector (vbrChecksum v.dev v.sb.sectorSize)).Verified := by
  have hsum : vbrChecksum (v.repaired sector (vbrChecksum v.dev v.sb.sectorSize)).dev
      v.sb.sectorSize = vbrChecksum v.dev v.sb.sectorSize :=
    vbrChecksum_congr hlarge fun k hk => if_neg (by
      have hlt := (mem_vbrSummed.mp hk).1
      omega)
  intro i hi
  change i < v.sb.sectorSize / 4 at hi
  show readLe _ (v.sb.sectorSize * 11 + 4 * i) 4 = (vbrChecksum _ v.sb.sectorSize).toNat
  rw [hsum, ← readLe_foldl_storeLe sector (UInt32.toNat_lt _) hi]
  refine readLe_congr fun j hj => (if_pos (by omega)).trans (congrArg _ (by omega))

theorem verifyVbrChecksum_repairs (hbits : v.sb.sectorBits ≤ 25) (hrepair : v.repair = .yes)
    (sector : Buf) :
    ∃ last after, Runs Shows v (verifyVbrChecksum sector) (true, after)
      (if v.Verified then v else v.repaired last (vbrChecksum v.dev v.sb.sectorSize)) := by
  obtain ⟨last, hlast, hrest⟩ := verifyVbrChecksum_of_words hbits sector
  have hverified := verified_iff_words hlast
  by_cases hfine : v.Verified
  · refine ⟨last, last, ?_⟩
    rw [if_pos hfine]
    exact hrest (verifyVbrWords_fine _ _ 0 (hverified.mp hfine))
  · refine ⟨last, fillSector last v.sb.sectorSize (vbrChecksum v.dev v.sb.sectorSize), ?_⟩
    rw [if_neg hfine]
    rw [hverified] at hfine
    exact hrest (verifyVbrWords_repairs _ hbits hrepair _ 0 (by omega) (by simpa using hfine))

end Repair

/--
With repair on, a check accepts every boot region.  It repairs nothing in one that a
check with repair off would accept, and otherwise makes one repair, in the checksum
sector; a check with repair off accepts what it leaves.
-/
theorem one_repair_suffices {ef : Volume} {v : View} (hshows : Shows ef v)
    (hbits : 9 ≤ v.sb.sectorBits ∧ v.sb.sectorBits ≤ 25) (hrepair : v.repair = .yes)
    (sector sector' : Buf) :
    ∃ fine before after ef' v', verifyVbrChecksum sector ef = some ((true, after), ef') ∧
      Shows ef' v' ∧
      (∀ k, ¬ (v.sb.sectorSize * 11 ≤ k ∧ k < v.sb.sectorSize * 12) → v'.dev k = v.dev k) ∧
      Returns (verifyVbrChecksum sector) { ef with repair := .no } (fine, before) ∧
      ef'.exfatErrorsFixed = ef.exfatErrorsFixed + (if fine then 0 else 1) ∧
      ∃ after', Returns (verifyVbrChecksum sector') { ef' with repair := .no } (true, after') := by
  have hlarge : 2 ^ 9 ≤ v.sb.sectorSize := Nat.pow_le_pow_right (by omega) hbits.1
  obtain ⟨dev, hdev, rfl⟩ := hshows
  obtain ⟨fine, before, _, hbefore, hfine⟩ :=
    verifyVbrChecksum_runs (v := { v with repair := .no }) hbits.2 rfl sector
  change fine = true ↔ v.Verified at hfine
  obtain ⟨last, after, hrun⟩ := verifyVbrChecksum_repairs hbits.2 hrepair sector
  generalize hv' : (if v.Verified then v
    else v.repaired last (vbrChecksum v.dev v.sb.sectorSize)) = v' at hrun
  obtain ⟨ef', heq, dev', hdev', rfl⟩ := hrun _ ⟨dev, hdev, rfl⟩
  have hafter : v'.sb = v.sb ∧ v'.Verified ∧
      (∀ k, ¬ (v.sb.sectorSize * 11 ≤ k ∧ k < v.sb.sectorSize * 12) → v'.dev k = v.dev k) ∧
      v'.exfatErrorsFixed = v.exfatErrorsFixed + (if fine then 0 else 1) := by
    by_cases hverified : v.Verified
    · rw [if_pos hverified] at hv'
      obtain rfl := hv'
      exact ⟨rfl, hverified, fun _ _ => rfl, by simp [hfine.mpr hverified]⟩
    · rw [if_neg hverified] at hv'
      obtain rfl := hv'
      refine ⟨rfl, VolumeOn.repaired_verified (by omega) last, fun k hk => if_neg (by omega), ?_⟩
      have hrefused : fine = false := by simpa using mt hfine.mp hverified
      rw [hrefused]
      rfl
  obtain ⟨hsb, hverified, houtside, hfixed⟩ := hafter
  obtain ⟨fine', after', _, hcheck, hfine'⟩ :=
    verifyVbrChecksum_runs (v := { v' with repair := .no }) (hsb ▸ hbits.2) rfl sector'
  refine ⟨fine, before, after, _, v', heq, ⟨dev', hdev', rfl⟩, houtside,
    hbefore.returns ⟨dev, hdev, rfl⟩, hfixed, after', ?_⟩
  exact hfine'.mpr hverified ▸ hcheck.returns ⟨dev', hdev', rfl⟩

theorem smallView_verified : smallView.Verified := by
  have hsum : vbrChecksum smallView.dev smallView.sb.sectorSize = 0 := by
    rw [vbrChecksum_eq _ (by decide)]
    exact List.foldl_fixed' (fun _ => rfl) _
  rw [VolumeOn.Verified, hsum]
  intro i _
  exact readLe_of_bytes (n := 0) fun j _ => by simp [smallView]

theorem small_boot_region_guarded :
    ∃ after, Returns (verifyVbrChecksum fun _ => 0)
      (smallVolumeOn (Function.update (fun _ => 0) 0 1)) (false, after) := by
  obtain ⟨fine, after, v', hrun, hfine⟩ :=
    verifyVbrChecksum_runs (v := smallView) (by decide) rfl fun _ => 0
  obtain ⟨fine', after', hreturns, hfine'⟩ := boot_region_guarded smallVolume_shows
    (smallVolumeOn_shows (Function.update (fun _ => 0) 0 1)) (by decide) rfl rfl rfl
    (hfine.mpr smallView_verified ▸ hrun.returns smallVolume_shows) (k := 0) (by decide)
    (by simp [smallView]) (fun j hj => by simp [smallView, hj]) fun _ => 0
  have hrefused : fine' = false := by simpa [VbrSkipped] using hfine'
  exact ⟨after', hrefused ▸ hreturns⟩

/-- The small volume with one byte of its boot region changed. -/
def damagedView : View := { smallView with dev := Function.update (fun _ => 0) 0 1 }

theorem damagedView_not_verified : ¬ damagedView.Verified := by
  have hiff : damagedView.Verified ↔ VbrSkipped 0 :=
    verified_iff_skipped smallView_verified rfl (by decide) (by decide)
      (by simp [damagedView, smallView]) fun j hj => by simp [damagedView, smallView, hj]
  simp [hiff, VbrSkipped]

theorem small_boot_region_repaired :
    ∃ after ef', verifyVbrChecksum (fun _ => 0)
        { smallVolumeOn (Function.update (fun _ => 0) 0 1) with repair := .yes } =
          some ((true, after), ef') ∧ ef'.exfatErrorsFixed = 1 ∧
      ∃ after', Returns (verifyVbrChecksum fun _ => 0) { ef' with repair := .no }
        (true, after') := by
  obtain ⟨dev, hdev, heq⟩ := smallVolumeOn_shows (Function.update (fun _ => 0) 0 1)
  obtain ⟨fine', _, _, hoff, hfine'⟩ :=
    verifyVbrChecksum_runs (v := damagedView) (by decide) rfl fun _ => 0
  obtain ⟨fine, before, after, ef', _, hrun, -, -, hbefore, hfixed, hafter⟩ :=
    one_repair_suffices (v := { damagedView with repair := .yes }) ⟨dev, hdev, rfl⟩
      (by decide) rfl (fun _ => 0) fun _ => 0
  have hsame : fine = fine' :=
    congrArg Prod.fst (hbefore.unique (hoff.returns ⟨dev, hdev, rfl⟩))
  have hrefused : fine = false := by
    simpa [hsame] using mt hfine'.mp damagedView_not_verified
  refine ⟨after, ef', ?_, ?_, hafter⟩
  · rw [heq]
    exact hrun
  · rw [hfixed, hrefused]
    rfl

end EntropyOS.Libexfat
