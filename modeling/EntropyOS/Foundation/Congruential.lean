import Mathlib.Tactic
import Mathlib.Dynamics.PeriodicPts.Lemmas

/-!
# Linear congruential sequences

The sequence of `x ↦ a * x + c` over a commutative ring.  Many steps at once
are again a map of this form, so a question about a long stretch of the
sequence is settled by a short computation.
-/

namespace EntropyOS.Foundation

section Congruential

variable {R : Type} [CommRing R] (a c : R)

def congruential (x : R) : R := a * x + c

theorem congruential_twice (b d x : R) :
    congruential b d (congruential b d x) =
      congruential (b * b) (b * d + d) x := by
  simp only [congruential]
  ring

/-- The coefficients of `2 ^ k` steps taken at once. -/
def stride : Nat → R × R
  | 0 => (a, c)
  | k + 1 =>
      let (b, d) := stride k
      (b * b, b * d + d)

theorem congruential_stride (k : Nat) :
    (congruential a c)^[2 ^ k] =
      congruential (stride a c k).1 (stride a c k).2 := by
  induction k with
  | zero => rfl
  | succ k ih =>
      calc (congruential a c)^[2 ^ (k + 1)]
          = ((congruential a c)^[2 ^ k])^[2] := by
            rw [← Function.iterate_mul, pow_succ]
        _ = congruential (stride a c (k + 1)).1 (stride a c (k + 1)).2 := by
            rw [ih]
            funext x
            exact congruential_twice _ _ x

/-- A stretch of the sequence moves the difference of its ends by a power. -/
theorem congruential_iterate_sub (k : Nat) (x y : R) :
    (congruential a c)^[k] x - (congruential a c)^[k] y = a ^ k * (x - y) := by
  induction k with
  | zero => simp
  | succ k ih =>
      rw [Function.iterate_succ_apply', Function.iterate_succ_apply', pow_succ',
        mul_assoc, ← ih]
      simp only [congruential]
      ring

theorem congruential_injective {b : R} (h : b * a = 1) :
    Function.Injective (congruential a c) := by
  intro x y hxy
  have hscaled : a * x = a * y := add_right_cancel hxy
  calc x = b * (a * x) := by rw [← mul_assoc, h, one_mul]
    _ = b * (a * y) := by rw [hscaled]
    _ = y := by rw [← mul_assoc, h, one_mul]

end Congruential

/--
A sequence whose period divides a power of two, and does not divide `2 ^ q`,
has no two equal values less than `2 ^ (q + 1)` steps apart.
-/
theorem iterate_ne_of_period {α : Type} {f : α → α}
    (hf : Function.Injective f) {x : α} {p q : Nat}
    (hp : Function.IsPeriodicPt f (2 ^ p) x)
    (hq : ¬ Function.IsPeriodicPt f (2 ^ q) x) {i j : Nat} (hij : i < j)
    (hnear : j - i < 2 ^ (q + 1)) : f^[i] x ≠ f^[j] x := by
  intro heq
  have hperiod : Function.IsPeriodicPt f (j - i) x := by
    apply hf.iterate i
    rw [← Function.iterate_add_apply, Nat.add_sub_cancel' hij.le]
    exact heq.symm
  obtain ⟨v, -, hv⟩ := (Nat.dvd_prime_pow Nat.prime_two).mp
    (Nat.gcd_dvd_left (2 ^ p) (j - i))
  have hsmall : 2 ^ v < 2 ^ (q + 1) := by
    rw [← hv]
    exact (Nat.gcd_le_right _ (by omega)).trans_lt hnear
  have hvq : v ≤ q :=
    Nat.lt_succ_iff.mp ((Nat.pow_lt_pow_iff_right (by decide)).mp hsmall)
  have hgcd := hp.gcd hperiod
  rw [hv] at hgcd
  exact hq (hgcd.trans_dvd (Nat.pow_dvd_pow 2 hvq))

end EntropyOS.Foundation
