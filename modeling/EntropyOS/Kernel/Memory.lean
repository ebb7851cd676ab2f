import EntropyOS.Foundation.Copying
import Mathlib.Tactic

/-!
# Moving memory

`memcpy`, `memset` and `memmove` of `mem.c`, over a memory with a byte at every
64-bit address.  The loops step the pointers as the source does, so that
addresses may wrap.
-/

namespace EntropyOS.Kernel

open EntropyOS.Foundation

abbrev Memory := UInt64 → UInt8

/-- `while (n--) *d++ = *s++;` -/
def copyUp (memory : Memory) (d s : UInt64) : Nat → Memory
  | 0 => memory
  | n + 1 => copyUp (Function.update memory d (memory s)) (d + 1) (s + 1) n

/-- `while (n--) *--d = *--s;` -/
def copyDown (memory : Memory) (d s : UInt64) : Nat → Memory
  | 0 => memory
  | n + 1 =>
      copyDown (Function.update memory (d - 1) (memory (s - 1))) (d - 1) (s - 1) n

/-- `while (n--) *p++ = v;` -/
def fillUp (memory : Memory) (p : UInt64) (v : UInt8) : Nat → Memory
  | 0 => memory
  | n + 1 => fillUp (Function.update memory p v) (p + 1) v n

/-- `memcpy`: the pointer that is returned, and the memory afterwards. -/
def memcpy (dest src n : UInt64) (memory : Memory) : UInt64 × Memory :=
  (dest, copyUp memory dest src n.toNat)

/-- `memset`, where `c` is converted to `unsigned char`. -/
def memset (s : UInt64) (c : UInt32) (n : UInt64) (memory : Memory) :
    UInt64 × Memory :=
  (s, fillUp memory s c.toUInt8 n.toNat)

def memmove (dest src n : UInt64) (memory : Memory) : UInt64 × Memory :=
  if dest < src then (dest, copyUp memory dest src n.toNat)
  else (dest, copyDown memory (dest + n) (src + n) n.toNat)

/-! ## Addresses -/

def address (base : UInt64) (i : Nat) : UInt64 := base + UInt64.ofNat i

section Addresses

variable {base dest src : UInt64} {i j n : Nat}

theorem address_zero (base : UInt64) : address base 0 = base := UInt64.add_zero base

theorem address_succ (base : UInt64) (i : Nat) :
    address base i + 1 = address base (i + 1) := by
  rw [address, address, UInt64.ofNat_add, UInt64.add_assoc]
  rfl

theorem address_pred (base : UInt64) (i : Nat) :
    address base (i + 1) - 1 = address base i := by
  rw [← address_succ, UInt64.add_sub_cancel]

theorem address_toNat_self (base n : UInt64) : address base n.toNat = base + n := by
  rw [address, UInt64.ofNat_toNat]

theorem address_toNat (h : base.toNat + i < 18446744073709551616) :
    (address base i).toNat = base.toNat + i := by
  rw [address, UInt64.toNat_add, UInt64.toNat_ofNat']
  omega

theorem address_ne (hdest : dest.toNat + n ≤ 18446744073709551616)
    (hsrc : src.toNat + n ≤ 18446744073709551616) (hi : i < n) (hj : j < n)
    (h : src.toNat + i ≠ dest.toNat + j) : address src i ≠ address dest j := by
  intro heq
  have hnat := congrArg UInt64.toNat heq
  rw [address_toNat (by omega), address_toNat (by omega)] at hnat
  exact h hnat

end Addresses

/-! ## The loops -/

section Loops

variable {old memory : Memory} {dest src : UInt64} {k n : Nat}

/-- Going up, a source byte is read before the copy gets to it. -/
theorem copyUp_moved (hdest : dest.toNat + (k + n) ≤ 18446744073709551616)
    (hsrc : src.toNat + (k + n) ≤ 18446744073709551616)
    (hapart : dest < src ∨ src.toNat + (k + n) ≤ dest.toNat)
    (h : Moved old memory (address dest) (address src) {i | i < k}) :
    Moved old (copyUp memory (address dest k) (address src k) n) (address dest)
      (address src) {i | i < k + n} := by
  induction n generalizing k memory with
  | zero => exact h
  | succ n ih =>
      rw [UInt64.lt_iff_toNat_lt] at hapart
      have hunread : ∀ i ∈ {i | i < k}, address src k ≠ address dest i := by
        intro i (hi : i < k)
        exact address_ne hdest hsrc (by omega) (by omega) (by omega)
      have hother : ∀ i ∈ {i | i < k}, address dest i ≠ address dest k := by
        intro i (hi : i < k)
        exact address_ne hdest hdest (by omega) (by omega) (by omega)
      have hnext := h.insert hunread hother
      have hdone : insert k {i | i < k} = {i | i < k + 1} := by
        ext i
        simp only [Set.mem_insert_iff, Set.mem_ofPred_eq]
        omega
      rw [hdone] at hnext
      rw [copyUp, address_succ, address_succ, show k + (n + 1) = k + 1 + n by omega]
      apply ih (by omega) (by omega) _ hnext
      rw [UInt64.lt_iff_toNat_lt]
      omega

/-- Going down, the copy has left behind only addresses from `dest + k` on. -/
theorem copyDown_moved (hdest : dest.toNat + n ≤ 18446744073709551616)
    (hsrc : src.toNat + n ≤ 18446744073709551616) (habove : src ≤ dest) (hk : k ≤ n)
    (h : Moved old memory (address dest) (address src) {i | k ≤ i ∧ i < n}) :
    Moved old (copyDown memory (address dest k) (address src k) k) (address dest)
      (address src) {i | i < n} := by
  induction k generalizing memory with
  | zero => simpa [copyDown] using h
  | succ k ih =>
      have hle := UInt64.le_iff_toNat_le.mp habove
      have hunread : ∀ i ∈ {i | k + 1 ≤ i ∧ i < n},
          address src k ≠ address dest i := by
        intro i ⟨hlow, hhigh⟩
        exact address_ne hdest hsrc (by omega) hhigh (by omega)
      have hother : ∀ i ∈ {i | k + 1 ≤ i ∧ i < n},
          address dest i ≠ address dest k := by
        intro i ⟨hlow, hhigh⟩
        exact address_ne hdest hdest hhigh (by omega) (by omega)
      have hnext := h.insert hunread hother
      have hdone : insert k {i | k + 1 ≤ i ∧ i < n} = {i | k ≤ i ∧ i < n} := by
        ext i
        simp only [Set.mem_insert_iff, Set.mem_ofPred_eq]
        omega
      rw [hdone] at hnext
      rw [copyDown, address_pred, address_pred]
      exact ih (by omega) hnext

theorem fillUp_apply (p : UInt64) (v : UInt8) (n : Nat) (a : UInt64) :
    fillUp memory p v n a =
      if ∃ i < n, a = address p i then v else memory a := by
  induction n generalizing memory p with
  | zero => simp [fillUp]
  | succ n ih =>
      rw [fillUp, ih]
      have hlater : ∀ i, address (p + 1) i = address p (i + 1) := by
        intro i
        rw [address, address, UInt64.ofNat_add, UInt64.add_assoc,
          UInt64.add_comm 1]
        rfl
      simp only [hlater]
      by_cases hlast : ∃ i < n, a = address p (i + 1)
      · obtain ⟨i, hi, ha⟩ := hlast
        rw [if_pos ⟨i, hi, ha⟩, if_pos ⟨i + 1, by omega, ha⟩]
      · rw [if_neg hlast]
        by_cases hfirst : a = p
        · rw [hfirst, Function.update_self, if_pos ⟨0, by omega, (address_zero p).symm⟩]
        · rw [Function.update_of_ne hfirst, if_neg]
          rintro ⟨i, hi, ha⟩
          cases i with
          | zero => exact hfirst (ha.trans (address_zero p))
          | succ i => exact hlast ⟨i, by omega, ha⟩

end Loops

/-! ## Whole ranges -/

section Ranges

variable {memory new : Memory} {dest src n : UInt64}

theorem moved_range
    (h : Moved memory new (address dest) (address src) {i | i < n.toNat}) :
    (∀ i < n, new (dest + i) = memory (src + i)) ∧
      ∀ a, (∀ i < n, a ≠ dest + i) → new a = memory a := by
  refine ⟨fun i hi => ?_, fun a ha => h.frame a fun i (hi : i < n.toNat) => ?_⟩
  · rw [← address_toNat_self dest i, ← address_toNat_self src i]
    exact h.copied i.toNat (UInt64.lt_iff_toNat_lt.mp hi)
  · have hn := n.toNat_lt
    apply ha (UInt64.ofNat i)
    rw [UInt64.lt_iff_toNat_lt, UInt64.toNat_ofNat']
    omega

theorem moved_up (hdest : dest.toNat + n.toNat ≤ 18446744073709551616)
    (hsrc : src.toNat + n.toNat ≤ 18446744073709551616)
    (hapart : dest < src ∨ src.toNat + n.toNat ≤ dest.toNat) :
    Moved memory (copyUp memory dest src n.toNat) (address dest) (address src)
      {i | i < n.toNat} := by
  have hstart : Moved memory memory (address dest) (address src) {i | i < 0} :=
    .start memory fun i hi => Nat.not_lt_zero i hi
  have hmoved := copyUp_moved (n := n.toNat) (by omega) (by omega)
    (by simpa using hapart) hstart
  simpa only [address_zero, Nat.zero_add] using hmoved

theorem moved_down (hdest : dest.toNat + n.toNat ≤ 18446744073709551616)
    (hsrc : src.toNat + n.toNat ≤ 18446744073709551616) (habove : src ≤ dest) :
    Moved memory (copyDown memory (dest + n) (src + n) n.toNat) (address dest)
      (address src) {i | i < n.toNat} := by
  have hstart : Moved memory memory (address dest) (address src)
      {i | n.toNat ≤ i ∧ i < n.toNat} :=
    .start memory fun i hi => absurd hi.2 (not_lt.mpr hi.1)
  have hmoved := copyDown_moved hdest hsrc habove le_rfl hstart
  simpa only [address_toNat_self] using hmoved

end Ranges

/-- `memcpy` is right for ranges without a common byte. -/
theorem memcpy_copies (memory : Memory) {dest src n : UInt64}
    (hdest : dest.toNat + n.toNat ≤ 18446744073709551616)
    (hsrc : src.toNat + n.toNat ≤ 18446744073709551616)
    (hapart : dest.toNat + n.toNat ≤ src.toNat ∨
      src.toNat + n.toNat ≤ dest.toNat) :
    (memcpy dest src n memory).1 = dest ∧
      (∀ i < n, (memcpy dest src n memory).2 (dest + i) = memory (src + i)) ∧
      ∀ a, (∀ i < n, a ≠ dest + i) → (memcpy dest src n memory).2 a = memory a := by
  refine ⟨rfl, moved_range ?_⟩
  by_cases hbelow : dest < src ∨ src.toNat + n.toNat ≤ dest.toNat
  · exact moved_up hdest hsrc hbelow
  · -- nothing is moved: both ranges are empty
    rw [not_or, UInt64.lt_iff_toNat_lt] at hbelow
    have hnone : n.toNat = 0 := by omega
    rw [memcpy, hnone]
    exact .start memory fun i hi => Nat.not_lt_zero i hi

theorem memset_fills (memory : Memory) (s : UInt64) (c : UInt32) (n : UInt64) :
    (memset s c n memory).1 = s ∧
      (∀ i < n, (memset s c n memory).2 (s + i) = c.toUInt8) ∧
      ∀ a, (∀ i < n, a ≠ s + i) → (memset s c n memory).2 a = memory a := by
  refine ⟨rfl, fun i hi => ?_, fun a ha => ?_⟩
  · refine (fillUp_apply _ _ _ _).trans (if_pos ?_)
    exact ⟨i.toNat, UInt64.lt_iff_toNat_lt.mp hi, (address_toNat_self s i).symm⟩
  · refine (fillUp_apply _ _ _ _).trans (if_neg ?_)
    rintro ⟨i, hi, heq⟩
    have hn := n.toNat_lt
    refine ha (UInt64.ofNat i) ?_ heq
    rw [UInt64.lt_iff_toNat_lt, UInt64.toNat_ofNat']
    omega

/-- Whatever bytes the two ranges share, `memmove` copies what was there before. -/
theorem memmove_moves (memory : Memory) (dest src n : UInt64)
    (hdest : dest.toNat + n.toNat ≤ 18446744073709551616)
    (hsrc : src.toNat + n.toNat ≤ 18446744073709551616) :
    (memmove dest src n memory).1 = dest ∧
      (∀ i < n, (memmove dest src n memory).2 (dest + i) = memory (src + i)) ∧
      ∀ a, (∀ i < n, a ≠ dest + i) →
        (memmove dest src n memory).2 a = memory a := by
  unfold memmove
  split
  · next hbelow => exact ⟨rfl, moved_range (moved_up hdest hsrc (.inl hbelow))⟩
  · next habove =>
      exact ⟨rfl, moved_range (moved_down hdest hsrc (UInt64.not_lt.mp habove))⟩

/-- The last eight bytes of memory and the eight bytes three below them. -/
theorem memmove_at_the_end :
    (0xFFFFFFFFFFFFFFF8 : UInt64).toNat + (8 : UInt64).toNat ≤ 18446744073709551616 ∧
      ∀ i : UInt64, i < 8 →
        (memmove 0xFFFFFFFFFFFFFFF8 0xFFFFFFFFFFFFFFF5 8 UInt64.toUInt8).2
          (0xFFFFFFFFFFFFFFF8 + i) = (0xFFFFFFFFFFFFFFF5 + i).toUInt8 :=
  ⟨by decide, (memmove_moves UInt64.toUInt8 0xFFFFFFFFFFFFFFF8 0xFFFFFFFFFFFFFFF5 8
    (by decide) (by decide)).2.1⟩

end EntropyOS.Kernel
