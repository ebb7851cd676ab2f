import Mathlib.Tactic
import Mathlib.Data.List.GetD
import EntropyOS.Foundation.Bytes

/-!
# Blocks of a disk, gathered to one text

Blocks of one size that start at the given places make up a text.  A write into
one block is a write into the text, and it leaves alone all the texts that have
none of the block.
-/

namespace EntropyOS.Foundation

def gather (size : Nat) (disk : Buf) (starts : List Nat) : Buf :=
  fun k => disk (starts.getD (k / size) 0 + k % size)

def Apart (size : Nat) (starts : List Nat) : Prop :=
  starts.Pairwise fun a b => a + size ≤ b ∨ b + size ≤ a

section Gather

variable {size : Nat} {disk disk' buffer : Buf} {starts : List Nat} {i r n k : Nat}

theorem Apart.getElem (h : Apart size starts) {j : Nat} (hi : i < starts.length)
    (hj : j < starts.length) (hne : i ≠ j) :
    starts[i] + size ≤ starts[j] ∨ starts[j] + size ≤ starts[i] := by
  rcases Nat.lt_or_gt_of_ne hne with hlt | hlt
  · exact List.pairwise_iff_getElem.mp h i j hi hj hlt
  · exact (List.pairwise_iff_getElem.mp h j i hj hi hlt).symm

theorem div_lt_length (hk : k < starts.length * size) : k / size < starts.length := by
  rw [Nat.mul_comm] at hk
  exact Nat.div_lt_of_lt_mul hk

theorem gather_eq (hdiv : k / size < starts.length) :
    gather size disk starts k = disk (starts[k / size] + k % size) := by
  rw [gather, List.getD_eq_getElem _ _ hdiv]

theorem gather_mul_add (hi : i < starts.length) (hr : r < size) :
    gather size disk starts (i * size + r) = disk (starts[i] + r) := by
  have hdiv : (i * size + r) / size = i := by
    rw [Nat.mul_comm, Nat.mul_add_div (by omega), Nat.div_eq_of_lt hr, Nat.add_zero]
  have hmod : (i * size + r) % size = r := by
    rw [Nat.mul_comm, Nat.mul_add_mod, Nat.mod_eq_of_lt hr]
  rw [gather, hdiv, hmod, List.getD_eq_getElem _ _ hi]

theorem gather_overlay (disk buffer : Buf) (hapart : Apart size starts) (hi : i < starts.length)
    (hr : r + n ≤ size) (hk : k < starts.length * size) :
    gather size (disk.overlay (starts[i] + r) n buffer) starts k =
      (gather size disk starts).overlay (i * size + r) n buffer k := by
  have hpos : 0 < size := Nat.pos_of_ne_zero (by rintro rfl; simp at hk)
  have hmod := Nat.mod_lt k hpos
  have hkeq := Nat.div_add_mod k size
  rw [Nat.mul_comm] at hkeq
  have hdiv := div_lt_length hk
  rw [gather_eq hdiv, Buf.overlay, Buf.overlay, gather_eq hdiv]
  by_cases hsame : k / size = i
  · subst hsame
    by_cases hin : starts[k / size] + r ≤ starts[k / size] + k % size ∧
        starts[k / size] + k % size < starts[k / size] + r + n
    · rw [if_pos hin, if_pos (by omega)]
      exact congrArg buffer (by omega)
    · rw [if_neg hin, if_neg (by omega)]
  · have hapart' := hapart.getElem hdiv hi hsame
    rw [if_neg (by omega), if_neg]
    -- the byte is in the text of another block
    rintro ⟨hle, hlt⟩
    apply hsame
    have hback : (k - i * size) / size = 0 := Nat.div_eq_of_lt (by omega)
    have hsplit : k = (k - i * size) + i * size := by omega
    rw [hsplit, Nat.add_mul_div_right _ _ hpos, hback, Nat.zero_add]

theorem gather_congr (h : ∀ s ∈ starts, ∀ j < size, disk' (s + j) = disk (s + j))
    (hk : k < starts.length * size) :
    gather size disk' starts k = gather size disk starts k := by
  have hpos : 0 < size := Nat.pos_of_ne_zero (by rintro rfl; simp at hk)
  have hdiv := div_lt_length hk
  rw [gather_eq hdiv, gather_eq hdiv]
  exact h _ (List.getElem_mem _) _ (Nat.mod_lt k hpos)

theorem gather_append (more : List Nat) (hk : k < starts.length * size) :
    gather size disk (starts ++ more) k = gather size disk starts k := by
  have hdiv := div_lt_length hk
  simp only [gather, List.getD_eq_getElem?_getD]
  rw [List.getElem?_append_left hdiv]

end Gather

end EntropyOS.Foundation
