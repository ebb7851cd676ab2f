import Mathlib.Data.BitVec
import Mathlib.Data.List.Nodup

/-!
# Sums that tell one change

A fold whose steps can be undone tells two messages apart that differ in one
place.  The rotating sum is such a fold: it is turned by one bit to the right
before each byte is added.
-/

namespace EntropyOS.Foundation

/-- No step loses anything, neither of the state nor of what is put in. -/
structure Undoable {σ β : Type*} (step : σ → β → σ) : Prop where
  state : ∀ b, Function.Injective fun s => step s b
  input : ∀ s, Function.Injective (step s)

namespace Undoable

variable {σ β ι : Type*} {step : σ → β → σ} (h : Undoable step)

include h

theorem foldl_injective (places : List ι) (x : ι → β) :
    Function.Injective fun s => places.foldl (fun s j => step s (x j)) s := by
  induction places with
  | nil => exact fun _ _ heq => heq
  | cons j rest ih => exact fun _ _ heq => h.state (x j) (ih heq)

theorem foldl_ne {places : List ι} {x y : ι → β} {k : ι} (hnodup : places.Nodup)
    (hk : k ∈ places) (hne : x k ≠ y k) (hsame : ∀ j ∈ places, j ≠ k → x j = y j) (s : σ) :
    places.foldl (fun s j => step s (x j)) s ≠ places.foldl (fun s j => step s (y j)) s := by
  induction places generalizing s with
  | nil => simp at hk
  | cons j rest ih =>
      have hfresh := (List.nodup_cons.mp hnodup).1
      by_cases hj : j = k
      · subst hj
        have hrest : rest.foldl (fun s i => step s (x i)) (step s (x j)) =
            rest.foldl (fun s i => step s (y i)) (step s (x j)) := by
          refine List.foldl_ext _ _ _ fun t i hi => ?_
          rw [hsame i (List.mem_cons_of_mem _ hi) (fun heq => hfresh (heq ▸ hi))]
        intro heq
        rw [List.foldl_cons, List.foldl_cons, hrest] at heq
        exact hne (h.input s (h.foldl_injective rest y heq))
      · have hk' : k ∈ rest := by simpa [Ne.symm hj] using hk
        rw [List.foldl_cons, List.foldl_cons, hsame j (by simp) hj]
        exact ih (List.nodup_cons.mp hnodup).2 hk'
          (fun i hi => hsame i (List.mem_cons_of_mem _ hi)) _

end Undoable

theorem foldl_blocks {σ β : Type*} (step : σ → β → σ) (x : Nat → β) (p : Nat → Bool)
    (size : Nat) (hp : ∀ k, size ≤ k → p k) (count : Nat) (s : σ) :
    (List.range' 1 count).foldl
        (fun s i => (List.range size).foldl (fun s k => step s (x (size * i + k))) s)
        ((List.range size).foldl (fun s k => if p k then step s (x k) else s) s) =
      ((List.range (size * (count + 1))).filter p).foldl (fun s k => step s (x k)) s := by
  induction count with
  | zero => simp [List.foldl_filter]
  | succ count ih =>
      have hlast : ((List.range size).map (size * (count + 1) + ·)).filter p =
          (List.range size).map (size * (count + 1) + ·) := by
        refine List.filter_eq_self.mpr fun k hk => ?_
        obtain ⟨j, -, rfl⟩ := List.mem_map.mp hk
        exact hp _ (by rw [Nat.mul_succ]; omega)
      rw [List.range'_concat, List.foldl_append, ih, Nat.mul_succ size (count + 1),
        List.range_add, List.filter_append, List.foldl_append, hlast, List.foldl_map]
      simp [Nat.add_comm 1 count]

namespace RotatingSum

variable {w : Nat}

def turn (x : BitVec w) : BitVec w := x <<< (w - 1) ||| x >>> 1

def step (sum : BitVec w) (byte : BitVec 8) : BitVec w := turn sum + byte.setWidth w

theorem turn_injective : Function.Injective (turn (w := w)) := by
  intro x y heq
  refine BitVec.eq_of_getLsbD_eq fun i hi => ?_
  have hbit := fun j => congrArg (fun z : BitVec w => z.getLsbD j) heq
  cases i with
  | zero =>
      have hlast := hbit (w - 1)
      simpa [turn, show w - 1 < w by omega, show 1 + (w - 1) = w by omega,
        BitVec.getLsbD_eq_getElem hi] using hlast
  | succ i =>
      have hnext := hbit i
      simpa [turn, show i < w by omega, show i < w - 1 by omega, Nat.add_comm 1 i] using hnext

theorem step_undoable (hw : 8 ≤ w) : Undoable (step (w := w)) where
  state byte x y heq := turn_injective ((BitVec.add_left_inj _).mp heq)
  input sum a b heq := by
    have hwide : a.setWidth w = b.setWidth w := (BitVec.add_right_inj _).mp heq
    have hnarrow := congrArg (BitVec.setWidth 8) hwide
    simpa [BitVec.setWidth_setWidth_of_le _ hw] using hnarrow

end RotatingSum

end EntropyOS.Foundation
