import Mathlib.Data.Set.Insert

/-!
# Copying cell by cell

A copy inside one memory, where the cells that are written may be cells that are
still to be read.  What matters is only that no cell is read after it was
written.
-/

namespace EntropyOS.Foundation

variable {ι β : Type}

/--
For every `i` in `done`, the cell `target i` holds what `source i` held.  The
other cells are as before.
-/
structure Moved (old new : ι → β) (target source : Nat → ι) (done : Set Nat) :
    Prop where
  copied : ∀ i ∈ done, new (target i) = old (source i)
  frame : ∀ a, (∀ i ∈ done, a ≠ target i) → new a = old a

namespace Moved

variable {old new : ι → β} {target source : Nat → ι} {done : Set Nat} {k : Nat}

theorem start (old : ι → β) (hnone : ∀ i, i ∉ done) :
    Moved old old target source done :=
  ⟨fun i hi => absurd hi (hnone i), fun _ _ => rfl⟩

theorem insert [DecidableEq ι] (h : Moved old new target source done)
    (hunread : ∀ i ∈ done, source k ≠ target i)
    (hother : ∀ i ∈ done, target i ≠ target k) :
    Moved old (Function.update new (target k) (new (source k))) target source
      (insert k done) := by
  constructor
  case copied =>
    intro i hi
    rcases Set.mem_insert_iff.mp hi with rfl | hi
    · rw [Function.update_self]
      exact h.frame _ hunread
    · rw [Function.update_of_ne (hother i hi)]
      exact h.copied i hi
  case frame =>
    intro a ha
    rw [Function.update_of_ne (ha k (Set.mem_insert k done))]
    exact h.frame a fun i hi => ha i (Set.mem_insert_of_mem k hi)

end Moved

end EntropyOS.Foundation
