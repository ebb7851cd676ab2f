import Mathlib.Tactic
import Mathlib.Data.BitVec

/-!
# Bitmaps in machine words

Bit `index` of a bitmap is bit `index % w` of word `index / w`.  A search for a
clear bit goes word by word, skips the words that are full, and looks at the
bits of the others one after the other.
-/

namespace EntropyOS.Foundation

/-- The words of a bitmap, without a bound on their number. -/
abbrev Bitmap (w : Nat) := Nat → BitVec w

namespace Bitmap

variable {w : Nat}

def mask (index : Nat) : BitVec w := 1#w <<< (index % w)

def get (bitmap : Bitmap w) (index : Nat) : BitVec w :=
  bitmap (index / w) &&& mask index

def set (bitmap : Bitmap w) (index : Nat) : Bitmap w :=
  Function.update bitmap (index / w) (bitmap (index / w) ||| mask index)

def clear (bitmap : Bitmap w) (index : Nat) : Bitmap w :=
  Function.update bitmap (index / w) (bitmap (index / w) &&& ~~~ mask index)

def bit (bitmap : Bitmap w) (index : Nat) : Bool :=
  (bitmap (index / w)).getLsbD (index % w)

section Bits

variable (hw : 0 < w) (bitmap : Bitmap w) (index : Nat)

include hw

theorem getLsbD_mask (i : Nat) :
    (mask index : BitVec w).getLsbD i = decide (i = index % w) := by
  have hlt := Nat.mod_lt index hw
  simp only [mask, BitVec.getLsbD_shiftLeft, BitVec.getLsbD_one]
  by_cases hi : i = index % w
  · simp [hi, hlt, hw]
  · by_cases hbelow : i < index % w
    · simp [hi, hbelow]
    · simp [hi]
      omega

theorem get_eq_zero_iff : bitmap.get index = 0#w ↔ bitmap.bit index = false := by
  constructor
  · intro hzero
    have hbit := congrArg (fun x : BitVec w => x.getLsbD (index % w)) hzero
    simpa [get, bit, getLsbD_mask hw] using hbit
  · intro hbit
    refine BitVec.eq_of_getLsbD_eq fun i _ => ?_
    rw [get, BitVec.getLsbD_and, getLsbD_mask hw, BitVec.getLsbD_zero]
    by_cases hi : i = index % w
    · rw [hi]
      simpa [bit] using hbit
    · simp [hi]

omit hw in
theorem mod_ne_of_div_eq {index other : Nat} (hne : other ≠ index)
    (hdiv : other / w = index / w) : other % w ≠ index % w := by
  intro hmod
  apply hne
  rw [← Nat.div_add_mod other w, ← Nat.div_add_mod index w, hdiv, hmod]

@[simp] theorem bit_set_self : (bitmap.set index).bit index = true := by
  simp only [bit, set, Function.update_self, BitVec.getLsbD_or, getLsbD_mask hw]
  simp

@[simp] theorem bit_clear_self : (bitmap.clear index).bit index = false := by
  simp only [bit, clear, Function.update_self, BitVec.getLsbD_and, BitVec.getLsbD_not,
    getLsbD_mask hw]
  simp

theorem bit_set_ne {other : Nat} (hne : other ≠ index) :
    (bitmap.set index).bit other = bitmap.bit other := by
  by_cases hdiv : other / w = index / w
  · have hmod := mod_ne_of_div_eq hne hdiv
    simp only [bit, set, hdiv, Function.update_self, BitVec.getLsbD_or, getLsbD_mask hw]
    simp [hmod]
  · simp only [bit, set, Function.update_of_ne hdiv]

theorem bit_clear_ne {other : Nat} (hne : other ≠ index) :
    (bitmap.clear index).bit other = bitmap.bit other := by
  by_cases hdiv : other / w = index / w
  · have hmod := mod_ne_of_div_eq hne hdiv
    have hlt := Nat.mod_lt other hw
    simp only [bit, clear, hdiv, Function.update_self, BitVec.getLsbD_and,
      BitVec.getLsbD_not, getLsbD_mask hw]
    simp [hmod, hlt]
  · simp only [bit, clear, Function.update_of_ne hdiv]

end Bits

/-! ## The search -/

/-- The first clear bit of `rounds` bits from `c` on. -/
def findBit (bitmap : Bitmap w) : (rounds c : Nat) → Option Nat
  | 0, _ => none
  | rounds + 1, c =>
      if bitmap.get c = 0#w then some c else findBit bitmap rounds (c + 1)

/-- The first clear bit from `first` up to `last` in the words from `i` on. -/
def findWord (bitmap : Bitmap w) (first last : Nat) :
    (rounds i : Nat) → Option Nat
  | 0, _ => none
  | rounds + 1, i =>
      if bitmap i = BitVec.allOnes w then
        findWord bitmap first last rounds (i + 1)
      else
        let low := max (i * w) first
        let high := min ((i + 1) * w) last
        match findBit bitmap (high - low) low with
        | some c => some c
        | none => findWord bitmap first last rounds (i + 1)

def find (bitmap : Bitmap w) (first last : Nat) : Option Nat :=
  findWord bitmap first last ((last + w - 1) / w - first / w) (first / w)

/-- `found` is the first clear bit from `first` up to `last`, if there is one. -/
def FirstClear (bitmap : Bitmap w) (first last : Nat) : Option Nat → Prop
  | some c => first ≤ c ∧ c < last ∧ bitmap.bit c = false ∧
      ∀ i, first ≤ i → i < c → bitmap.bit i = true
  | none => ∀ i, first ≤ i → i < last → bitmap.bit i = true

namespace FirstClear

variable {bitmap : Bitmap w} {first middle last : Nat}

/-- A stretch of set bits in front makes no difference. -/
theorem extend (hset : ∀ i, first ≤ i → i < middle → bitmap.bit i = true)
    (hle : first ≤ middle) {found : Option Nat}
    (h : FirstClear bitmap middle last found) :
    FirstClear bitmap first last found := by
  cases found with
  | none =>
      intro i hfirst hlast
      by_cases hi : i < middle
      · exact hset i hfirst hi
      · exact h i (by omega) hlast
  | some c =>
      obtain ⟨hmiddle, hlast, hclear, hbefore⟩ := h
      refine ⟨by omega, hlast, hclear, fun i hfirst hi => ?_⟩
      by_cases him : i < middle
      · exact hset i hfirst him
      · exact hbefore i (by omega) hi

theorem unique {found found' : Option Nat} (h : FirstClear bitmap first last found)
    (h' : FirstClear bitmap first last found') : found = found' := by
  cases found with
  | none =>
      cases found' with
      | none => rfl
      | some c =>
          obtain ⟨hfirst, hlast, hclear, -⟩ := h'
          simp [h c hfirst hlast] at hclear
  | some c =>
      obtain ⟨hfirst, hlast, hclear, hbefore⟩ := h
      cases found' with
      | none => simp [h' c hfirst hlast] at hclear
      | some c' =>
          obtain ⟨hfirst', hlast', hclear', hbefore'⟩ := h'
          rcases Nat.lt_trichotomy c c' with hlt | rfl | hlt
          · simp [hbefore' c hfirst hlt] at hclear
          · rfl
          · simp [hbefore c' hfirst' hlt] at hclear'

end FirstClear

section Search

variable (hw : 0 < w) (bitmap : Bitmap w)

include hw

theorem findBit_firstClear (rounds c : Nat) :
    FirstClear bitmap c (c + rounds) (bitmap.findBit rounds c) := by
  induction rounds generalizing c with
  | zero =>
      intro i hfirst hlast
      omega
  | succ rounds ih =>
      rw [findBit]
      by_cases hget : bitmap.get c = 0#w
      · rw [if_pos hget]
        refine ⟨le_rfl, by omega, (get_eq_zero_iff hw bitmap c).mp hget, ?_⟩
        intro i hfirst hi
        omega
      · rw [if_neg hget]
        have hrest := ih (c + 1)
        rw [show c + 1 + rounds = c + (rounds + 1) by omega] at hrest
        refine hrest.extend (fun i hfirst hi => ?_) (by omega)
        obtain rfl : i = c := by omega
        rw [get_eq_zero_iff hw] at hget
        simpa using hget

theorem bit_of_full {i index : Nat} (hfull : bitmap i = BitVec.allOnes w)
    (hlow : i * w ≤ index) (hhigh : index < (i + 1) * w) :
    bitmap.bit index = true := by
  have hdiv : index / w = i := Nat.div_eq_of_lt_le hlow hhigh
  simp [bit, hdiv, hfull, Nat.mod_lt index hw]

theorem findWord_firstClear {first : Nat} (last rounds i : Nat)
    (hend : last ≤ (i + rounds) * w) (hstart : first < (i + 1) * w) :
    FirstClear bitmap (max (i * w) first) last
      (bitmap.findWord first last rounds i) := by
  induction rounds generalizing i with
  | zero =>
      intro j hfirst hlast
      simp only [Nat.add_zero] at hend
      omega
  | succ rounds ih =>
      have hnext : (i + 1) * w = i * w + w := Nat.succ_mul i w
      have hrest := ih (i + 1) (by rwa [show i + 1 + rounds = i + (rounds + 1) by omega])
        (by rw [Nat.succ_mul]; omega)
      rw [max_eq_left (by omega)] at hrest
      rw [findWord]
      by_cases hfull : bitmap i = BitVec.allOnes w
      · rw [if_pos hfull]
        refine hrest.extend (fun j hfirst hj => ?_) (by omega)
        exact bit_of_full hw bitmap hfull (by omega) hj
      · rw [if_neg hfull]
        have hword := findBit_firstClear hw bitmap
          (min ((i + 1) * w) last - max (i * w) first) (max (i * w) first)
        cases hfound : bitmap.findBit
            (min ((i + 1) * w) last - max (i * w) first) (max (i * w) first) with
        | some c =>
            rw [hfound] at hword
            obtain ⟨hfirst, hlast, hclear, hbefore⟩ := hword
            simp only [hfound]
            exact ⟨hfirst, by omega, hclear, hbefore⟩
        | none =>
            rw [hfound] at hword
            simp only [hfound]
            by_cases hdone : last ≤ (i + 1) * w
            · have hempty : FirstClear bitmap ((i + 1) * w) last none :=
                fun j hfirst hlast => by omega
              have hnone := hrest.unique hempty
              rw [hnone]
              exact fun j hfirst hlast => hword j hfirst (by omega)
            · refine hrest.extend (fun j hfirst hj => ?_) (by omega)
              exact hword j hfirst (by omega)

/-- The search by words finds what a search bit by bit would find. -/
theorem find_firstClear (first last : Nat) :
    FirstClear bitmap first last (bitmap.find first last) := by
  have hstart : first < (first / w + 1) * w := by
    rw [Nat.mul_comm]
    exact Nat.lt_mul_div_succ first hw
  have hend : last ≤ (last + w - 1) / w * w := by
    have hround := Nat.lt_mul_div_succ (last + w - 1) hw
    rw [Nat.mul_add, Nat.mul_comm] at hround
    omega
  have hword := findWord_firstClear hw bitmap last
    ((last + w - 1) / w - first / w) (first / w) ?_ hstart
  · rwa [max_eq_right (Nat.div_mul_le_self first w)] at hword
  · refine hend.trans (Nat.mul_le_mul_right w ?_)
    omega

end Search

end Bitmap

end EntropyOS.Foundation
