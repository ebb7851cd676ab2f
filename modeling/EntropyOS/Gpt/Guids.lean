import EntropyOS.Foundation.Congruential
import EntropyOS.Gpt.Operations

/-!
# The identifiers of one power-on

`generate_guid` draws its bytes from the seed of a linear congruential
sequence, bits 16 to 23 of each value.  The first 16384 identifiers after a
start of the machine differ in their first four bytes.
-/

namespace EntropyOS.Gpt

open EntropyOS.Foundation

def nextSeed (seed : UInt32) : UInt32 := seed * 1103515245 + 12345

/-- The seed once `n` identifiers are generated after a start. -/
def seedAfter (n : Nat) : UInt32 := nextSeed^[16 * n] Statics.startup.seed

def guidAt (n : Nat) : Guid := (generateGuid (seedAfter n)).1

def seedByte (seed : UInt32) : UInt8 := ((seed >>> 16) &&& 0xFF).toUInt8

theorem guidBytes_succ (count : Nat) (seed : UInt32) :
    guidBytes (count + 1) seed = (seedByte (nextSeed seed) ::
      (guidBytes count (nextSeed seed)).1, (guidBytes count (nextSeed seed)).2) := by
  rw [guidBytes]
  rfl
theorem guidBytes_eq (count : Nat) (seed : UInt32) :
    (guidBytes count seed).2 = nextSeed^[count] seed ∧
    ∀ k < count, (guidBytes count seed).1.getD k 0 =
      seedByte (nextSeed^[k + 1] seed) := by
  induction count generalizing seed with
  | zero => exact ⟨rfl, fun k hk => absurd hk (Nat.not_lt_zero k)⟩
  | succ count ih =>
      obtain ⟨hseed, hbytes⟩ := ih (nextSeed seed)
      rw [guidBytes_succ, Function.iterate_succ_apply]
      refine ⟨hseed, fun k hk => ?_⟩
      rw [Function.iterate_succ_apply]
      cases k with
      | zero => rw [List.getD_cons_zero, Function.iterate_zero_apply]
      | succ k => rw [List.getD_cons_succ, hbytes k (by omega)]
theorem generateGuid_seedAfter (n : Nat) :
    generateGuid (seedAfter n) = (guidAt n, seedAfter (n + 1)) := by
  refine Prod.ext rfl ?_
  change (guidBytes 16 (seedAfter n)).2 = _
  rw [(guidBytes_eq 16 (seedAfter n)).1, seedAfter, seedAfter,
    ← Function.iterate_add_apply]
  exact congrArg (fun k => nextSeed^[k] Statics.startup.seed) (by omega)

/-! ## Seeds -/

def residue (m : Nat) (seed : UInt32) : ZMod m := seed.toNat

theorem residue_iterate {m : Nat} (hm : m ∣ 4294967296) (k : Nat)
    (seed : UInt32) :
    residue m (nextSeed^[k] seed) =
      (congruential 1103515245 12345)^[k] (residue m seed) := by
  induction k generalizing seed with
  | zero => rfl
  | succ k ih =>
      rw [Function.iterate_succ_apply, Function.iterate_succ_apply, ih]
      congr 1
      have hvalue : (nextSeed seed).toNat =
          (seed.toNat * 1103515245 + 12345) % 4294967296 := by
        simp [nextSeed, UInt32.toNat_add, UInt32.toNat_mul]
      rw [residue, hvalue, (ZMod.natCast_eq_natCast_iff' _ _ _).mpr
        (Nat.mod_mod_of_dvd _ hm)]
      simp [residue, congruential, mul_comm]

theorem seed_low_bits (n k : Nat) :
    (nextSeed^[k] (seedAfter n)).toNat % 16 =
      (nextSeed^[k] Statics.startup.seed).toNat % 16 := by
  have hstride : stride (1103515245 : ZMod 16) 12345 4 = (1, 0) := by
    decide +kernel
  have hperiod : ∀ x : ZMod 16,
      Function.IsPeriodicPt (congruential 1103515245 12345) (2 ^ 4) x := by
    intro x
    change (congruential 1103515245 12345)^[2 ^ 4] x = x
    rw [congruential_stride, hstride]
    simp [congruential]
  have hdvd : (16 : Nat) ∣ 4294967296 := by decide
  refine (ZMod.natCast_eq_natCast_iff' _ _ 16).mp ?_
  change residue 16 _ = residue 16 _
  rw [residue_iterate hdvd, residue_iterate hdvd, seedAfter,
    residue_iterate hdvd]
  congr 1
  exact (hperiod _).mul_const n

/-- Over 16384 identifiers the low 24 bits of the seed do not return. -/
theorem seed_ne {m n : Nat} (hmn : m < n) (hnear : n - m < 16384) (k : Nat) :
    (nextSeed^[k] (seedAfter m)).toNat % 16777216 ≠
      (nextSeed^[k] (seedAfter n)).toNat % 16777216 := by
  intro heq
  have hdvd : (16777216 : Nat) ∣ 4294967296 := by decide
  have hresidue := (ZMod.natCast_eq_natCast_iff' _ _ 16777216).mpr heq
  change residue 16777216 _ = residue 16777216 _ at hresidue
  rw [seedAfter, seedAfter, ← Function.iterate_add_apply,
    ← Function.iterate_add_apply, residue_iterate hdvd,
    residue_iterate hdvd] at hresidue
  have hfull : stride (1103515245 : ZMod 16777216) 12345 24 = (1, 0) := by
    decide +kernel
  have hinjective : Function.Injective
      (congruential (1103515245 : ZMod 16777216) 12345) :=
    congruential_injective _ _ (b := 12184421) (by decide +kernel)
  have hperiod : ∀ x : ZMod 16777216,
      Function.IsPeriodicPt (congruential 1103515245 12345) (2 ^ 24) x := by
    intro x
    change (congruential 1103515245 12345)^[2 ^ 24] x = x
    rw [congruential_stride, hfull]
    simp [congruential]
  have hhalf : ¬ Function.IsPeriodicPt (congruential 1103515245 12345)
      (2 ^ 17) (residue 16777216 Statics.startup.seed) := by
    change ¬ (congruential 1103515245 12345)^[2 ^ 17] _ = _
    rw [congruential_stride]
    decide +kernel
  exact iterate_ne_of_period hinjective (hperiod _) hhalf (by omega) (by omega)
    hresidue

/-! ## Bytes -/

theorem seedByte_toNat (seed : UInt32) :
    (seedByte seed).toNat = seed.toNat / 65536 % 256 := by
  have hmask : ∀ n : Nat, n &&& 255 = n % 256 :=
    fun n => Nat.and_two_pow_sub_one_eq_mod n 8
  simp [seedByte, hmask, Nat.shiftRight_eq_div_pow]

/-- A difference of less than 4096 leaves its place within three steps. -/
theorem difference_grows {f : Nat} (hpos : f ≠ 0) (hlt : f < 4096) :
    ∃ k < 4, 4096 ≤ 1103515245 ^ k * f % 1048576 ∧
      1103515245 ^ k * f % 1048576 ≤ 1044480 := by
  have hall : ∀ high < 64, ∀ low < 64, 64 * high + low ≠ 0 → ∃ k < 4,
      4096 ≤ 1103515245 ^ k * (64 * high + low) % 1048576 ∧
        1103515245 ^ k * (64 * high + low) % 1048576 ≤ 1044480 := by
    decide +kernel
  have hsplit : 64 * (f / 64) + f % 64 = f := Nat.div_add_mod f 64
  have hf := hall (f / 64) (by omega) (f % 64) (by omega)
  rw [hsplit] at hf
  exact hf hpos

/-- How the difference of two seeds moves, in integers. -/
theorem seed_difference (k : Nat) (x y : UInt32) :
    (16777216 : Int) ∣ ((nextSeed^[k] x).toNat : Int) -
      (nextSeed^[k] y).toNat - 1103515245 ^ k * (x.toNat - y.toNat) := by
  have hdvd : (16777216 : Nat) ∣ 4294967296 := by decide
  have hsub := congruential_iterate_sub (1103515245 : ZMod 16777216) 12345 k
    (residue 16777216 x) (residue 16777216 y)
  rw [← residue_iterate hdvd, ← residue_iterate hdvd] at hsub
  simp only [residue] at hsub
  rw [← sub_eq_zero] at hsub
  refine (ZMod.intCast_zmod_eq_zero_iff_dvd _ 16777216).mp ?_
  push_cast
  exact hsub

/-- Seeds that differ, but not in the low four bits, differ in a byte soon. -/
theorem seedByte_ne {x y : UInt32} (hlow : x.toNat % 16 = y.toNat % 16)
    (hne : x.toNat % 16777216 ≠ y.toNat % 16777216) :
    ∃ k < 4, seedByte (nextSeed^[k] x) ≠ seedByte (nextSeed^[k] y) := by
  wlog hle : y.toNat % 16777216 ≤ x.toNat % 16777216 generalizing x y
  · obtain ⟨k, hk, hbyte⟩ := this hlow.symm hne.symm (by omega)
    exact ⟨k, hk, hbyte.symm⟩
  by_contra hsame
  have hbytes : ∀ k < 4, (nextSeed^[k] x).toNat / 65536 % 256 =
      (nextSeed^[k] y).toNat / 65536 % 256 := by
    intro k hk
    rw [← seedByte_toNat, ← seedByte_toNat]
    by_contra hbyte
    exact hsame ⟨k, hk, fun heq => hbyte (congrArg UInt8.toNat heq)⟩
  have hfirst := hbytes 0 (by decide)
  simp only [Function.iterate_zero_apply] at hfirst
  -- the difference is `16 * f` with a small `f`
  obtain ⟨f, hf⟩ : ∃ f, x.toNat % 16777216 = y.toNat % 16777216 + 16 * f :=
    ⟨(x.toNat % 16777216 - y.toNat % 16777216) / 16, by omega⟩
  obtain ⟨k, hk, hfar, hnear⟩ :=
    difference_grows (show f ≠ 0 by omega) (show f < 4096 by omega)
  have hbyte := hbytes k hk
  obtain ⟨q, hq⟩ := seed_difference k x y
  obtain ⟨r, hr⟩ : ∃ r : Int, (x.toNat : Int) - y.toNat = 16 * f + 16777216 * r :=
    ⟨(x.toNat : Int) / 16777216 - (y.toNat : Int) / 16777216, by omega⟩
  have hproduct : (1103515245 : Int) ^ k * (16 * f + 16777216 * r) =
      16 * ((1103515245 ^ k * f : Nat) : Int) +
        16777216 * (1103515245 ^ k * r) := by
    push_cast
    ring
  rw [hr, hproduct] at hq
  generalize (1103515245 : Int) ^ k * r = t at hq
  generalize 1103515245 ^ k * f = e at hq hfar hnear
  omega

theorem guidAt_ne {m n : Nat} (hmn : m < n) (hnear : n - m < 16384) :
    guidAt m ≠ guidAt n := by
  intro heq
  obtain ⟨k, hk, hbyte⟩ := seedByte_ne
    ((seed_low_bits m 1).trans (seed_low_bits n 1).symm) (seed_ne hmn hnear 1)
  have hguid : ∀ n, guidAt n (Fin.ofNat 16 k) =
      seedByte (nextSeed^[k] (nextSeed^[1] (seedAfter n))) := by
    intro n
    rw [← Function.iterate_add_apply, ← (guidBytes_eq 16 _).2 k (by omega)]
    interval_cases k <;> rfl
  exact hbyte (by rw [← hguid m, ← hguid n, heq])

theorem guidAt_injective {m n : Nat} (hm : m < 16384) (hn : n < 16384)
    (h : guidAt m = guidAt n) : m = n := by
  by_contra hne
  rcases Nat.lt_or_gt_of_ne hne with hlt | hgt
  · exact guidAt_ne hlt (by omega) h
  · exact guidAt_ne hgt (by omega) h.symm

end EntropyOS.Gpt
