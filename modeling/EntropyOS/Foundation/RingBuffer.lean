import Mathlib.Tactic
import EntropyOS.Foundation.Sizes

/-!
# Ring buffers

A ring of `size` cells holds at most `size - 1` elements, from the tail up to
the head.  It is read through the list of its contents.
-/

namespace EntropyOS.Foundation

structure RingBuffer (α : Type) (size : Nat) where
  buf : Nat → α
  head : Nat
  tail : Nat
  head_lt : head < size
  tail_lt : tail < size

namespace RingBuffer

variable {α : Type} {size : Nat} (r : RingBuffer α size)

include r in
theorem size_pos : 0 < size := Nat.zero_lt_of_lt r.head_lt

def count : Nat := (r.head + size - r.tail) % size

def contents : List α :=
  (List.range r.count).map fun k => r.buf ((r.tail + k) % size)

/-- Add an element, or drop it if the ring is full. -/
def push (a : α) : RingBuffer α size :=
  if (r.head + 1) % size = r.tail then r
  else
    { r with
      buf := Function.update r.buf r.head a
      head := (r.head + 1) % size
      head_lt := Nat.mod_lt _ r.size_pos }

def pop : Option (α × RingBuffer α size) :=
  if r.tail = r.head then none
  else
    some (r.buf r.tail,
      { r with
        tail := (r.tail + 1) % size
        tail_lt := Nat.mod_lt _ r.size_pos })

/-- Put the last `k` elements that were taken back. -/
def unread (k : Nat) : RingBuffer α size :=
  { r with
    tail := (r.tail + size - k) % size
    tail_lt := Nat.mod_lt _ r.size_pos }

@[simp] theorem length_contents : r.contents.length = r.count := by
  simp [contents]

theorem count_lt : r.count < size := Nat.mod_lt _ r.size_pos

theorem count_eq :
    r.count = if r.tail ≤ r.head then r.head - r.tail else r.head + size - r.tail := by
  have hhead := r.head_lt
  have htail := r.tail_lt
  rw [count]
  split
  · rw [show r.head + size - r.tail = r.head - r.tail + size by omega,
      Nat.add_mod_right, Nat.mod_eq_of_lt (by omega)]
  · exact Nat.mod_eq_of_lt (by omega)

theorem tail_add_count : (r.tail + r.count) % size = r.head := by
  have hhead := r.head_lt
  have htail := r.tail_lt
  rw [count_eq]
  split
  · rw [show r.tail + (r.head - r.tail) = r.head by omega, Nat.mod_eq_of_lt hhead]
  · rw [show r.tail + (r.head + size - r.tail) = r.head + size by omega,
      Nat.add_mod_right, Nat.mod_eq_of_lt hhead]

theorem full_iff : (r.head + 1) % size = r.tail ↔ r.count + 1 = size := by
  have hhead := r.head_lt
  have htail := r.tail_lt
  rw [count_eq]
  rcases Nat.lt_or_ge (r.head + 1) size with hlt | hge
  · rw [Nat.mod_eq_of_lt hlt]
    split
    · omega
    · omega
  · rw [show r.head + 1 = size by omega, Nat.mod_self]
    split
    · omega
    · omega

theorem contents_push (a : α) (h : r.count + 1 ≠ size) :
    (r.push a).contents = r.contents ++ [a] := by
  have hhead := r.head_lt
  have htail := r.tail_lt
  have hcount := r.count_lt
  have hnext : (r.push a).count = r.count + 1 := by
    have hnot := mt r.full_iff.mp h
    rw [push, if_neg hnot, count_eq, count_eq]
    simp only
    rcases Nat.lt_or_ge (r.head + 1) size with hlt | hge
    · rw [Nat.mod_eq_of_lt hlt] at hnot ⊢
      split_ifs with hafter hbefore hbefore
      · omega
      · omega
      · omega
      · omega
    · rw [show r.head + 1 = size by omega, Nat.mod_self] at hnot ⊢
      split_ifs with hafter hbefore hbefore
      · omega
      · omega
      · omega
      · omega
  rw [contents, hnext, List.range_succ, List.map_append, contents, push,
    if_neg (mt r.full_iff.mp h), List.map_singleton]
  congr 1
  · refine List.map_congr_left fun k hk => ?_
    have hk := List.mem_range.mp hk
    refine Function.update_of_ne (fun heq => ?_) _ _
    -- two cells at a distance below the size are different
    have hmod : k ≡ r.count [MOD size] :=
      Nat.ModEq.add_left_cancel' r.tail (heq.trans r.tail_add_count.symm)
    have hsame := Nat.ModEq.eq_of_lt_of_lt hmod (by omega) hcount
    omega
  · simp only [r.tail_add_count, Function.update_self]

theorem pop_eq_none_iff : r.pop = none ↔ r.contents = [] := by
  have hhead := r.head_lt
  have htail := r.tail_lt
  rw [← List.length_eq_zero_iff, length_contents, count_eq, pop]
  split_ifs with heq hle hle
  · simp [heq]
  · omega
  · simp
    omega
  · simp
    omega

variable {r} {r' : RingBuffer α size} {a : α}

theorem contents_pop (h : r.pop = some (a, r')) : r.contents = a :: r'.contents := by
  have hhead := r.head_lt
  have htail := r.tail_lt
  rw [pop] at h
  split at h
  · simp at h
  · next hne =>
    obtain ⟨rfl, rfl⟩ := Prod.mk.inj (Option.some.inj h)
    obtain ⟨n, hn⟩ : ∃ n, r.count = n + 1 := by
      refine Nat.exists_eq_succ_of_ne_zero ?_
      rw [count_eq]
      split
      · omega
      · omega
    have hnext : RingBuffer.count
        { r with
          tail := (r.tail + 1) % size
          tail_lt := Nat.mod_lt _ r.size_pos } = n := by
      rw [count_eq] at hn ⊢
      simp only
      rcases Nat.lt_or_ge (r.tail + 1) size with hlt | hge
      · rw [Nat.mod_eq_of_lt hlt]
        split_ifs at hn ⊢
        · omega
        · omega
        · omega
        · omega
      · rw [show r.tail + 1 = size by omega, Nat.mod_self]
        split_ifs at hn ⊢
        · omega
        · omega
        · omega
        · omega
    rw [contents, hn, List.range_succ_eq_map, List.map_cons, List.map_map, contents,
      hnext, Nat.add_zero, Nat.mod_eq_of_lt htail]
    congr 1
    refine List.map_congr_left fun k _ => ?_
    simp only [Function.comp_apply, Nat.mod_add_mod]
    congr 2
    omega

/-- Taking an element and putting it back changes nothing. -/
theorem unread_pop (h : r.pop = some (a, r')) {k : Nat} (hk : k < size) :
    r'.unread (k + 1) = r.unread k := by
  have htail := r.tail_lt
  rw [pop] at h
  split at h
  · simp at h
  · obtain ⟨-, rfl⟩ := Prod.mk.inj (Option.some.inj h)
    have hsame : ((r.tail + 1) % size + size - (k + 1)) % size =
        (r.tail + size - k) % size := by
      rcases Nat.lt_or_ge (r.tail + 1) size with hlt | hge
      · rw [Nat.mod_eq_of_lt hlt]
        congr 1
        omega
      · rw [show r.tail + 1 = size by omega, Nat.mod_self,
          show r.tail + size - k = 0 + size - (k + 1) + size by omega,
          Nat.add_mod_right]
    simp only [unread, hsame]

theorem unread_zero : r.unread 0 = r := by
  have hsame : (r.tail + size - 0) % size = r.tail := by
    rw [Nat.sub_zero, Nat.add_mod_right, Nat.mod_eq_of_lt r.tail_lt]
  simp only [unread, hsame]

end RingBuffer

end EntropyOS.Foundation
