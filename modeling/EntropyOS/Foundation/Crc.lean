import Mathlib.Data.BitVec

/-!
# Reflected cyclic redundancy checks

The division by a polynomial, one bit after the other, for any width.  It is
linear over exclusive or, so eight bits can be taken at once from a table of the
256 remainders.
-/

namespace EntropyOS.Foundation.Crc

section Steps

variable {w : Nat} (poly : BitVec w)

/-- Divide by `poly`, the lowest bit first. -/
def bitStep (x : BitVec w) : BitVec w :=
  if x.getLsbD 0 then (x >>> 1) ^^^ poly else x >>> 1

def bitSteps : Nat → BitVec w → BitVec w
  | 0, x => x
  | count + 1, x => bitSteps count (bitStep poly x)

theorem bitStep_xor (x y : BitVec w) :
    bitStep poly (x ^^^ y) = bitStep poly x ^^^ bitStep poly y := by
  simp only [bitStep, BitVec.getLsbD_xor, BitVec.ushiftRight_xor_distrib]
  cases x.getLsbD 0 with
  | false =>
      cases y.getLsbD 0 with
      | false => simp
      | true => simp [BitVec.xor_assoc]
  | true =>
      cases y.getLsbD 0 with
      | false =>
          simp only [if_true, Bool.false_eq_true, if_false, Bool.xor_false]
          rw [BitVec.xor_assoc, BitVec.xor_comm (y >>> 1), BitVec.xor_assoc]
      | true =>
          have hcancel : (x >>> 1 ^^^ poly) ^^^ (y >>> 1 ^^^ poly) =
              x >>> 1 ^^^ y >>> 1 := by
            rw [BitVec.xor_comm (y >>> 1), BitVec.xor_assoc, ← BitVec.xor_assoc poly,
              BitVec.xor_self, BitVec.zero_xor]
          simp [hcancel]

theorem bitSteps_xor (count : Nat) (x y : BitVec w) :
    bitSteps poly count (x ^^^ y) = bitSteps poly count x ^^^ bitSteps poly count y := by
  induction count generalizing x y with
  | zero => rfl
  | succ count ih => rw [bitSteps, bitStep_xor, ih, bitSteps, bitSteps]

theorem bitSteps_of_clear (count : Nat) {x : BitVec w}
    (h : ∀ i < count, x.getLsbD i = false) : bitSteps poly count x = x >>> count := by
  induction count generalizing x with
  | zero => rw [bitSteps, BitVec.ushiftRight_zero]
  | succ count ih =>
      have hfirst : bitStep poly x = x >>> 1 := by
        rw [bitStep, h 0 (by omega)]
        rfl
      have hrest : ∀ i < count, (x >>> 1).getLsbD i = false := by
        intro i hi
        rw [BitVec.getLsbD_ushiftRight]
        exact h (1 + i) (by omega)
      rw [bitSteps, hfirst, ih hrest, ← BitVec.shiftRight_add, Nat.add_comm]

def low (count : Nat) (x : BitVec w) : BitVec w := (x.setWidth count).setWidth w

theorem getLsbD_low (count : Nat) (x : BitVec w) (i : Nat) :
    (low count x).getLsbD i = (decide (i < count) && x.getLsbD i) := by
  rw [low, BitVec.getLsbD_setWidth, BitVec.getLsbD_setWidth]
  by_cases hi : i < w
  · simp [hi]
  · simp [hi, BitVec.getLsbD_of_ge x i (by omega)]

theorem bitSteps_low (count : Nat) (x : BitVec w) :
    bitSteps poly count x = bitSteps poly count (low count x) ^^^ (x >>> count) := by
  have hsplit : x = low count x ^^^ (x ^^^ low count x) := by
    rw [BitVec.xor_comm x, ← BitVec.xor_assoc, BitVec.xor_self, BitVec.zero_xor]
  have hclear : ∀ i < count, (x ^^^ low count x).getLsbD i = false := by
    intro i hi
    simp [getLsbD_low, hi]
  have hhigh : (x ^^^ low count x) >>> count = x >>> count := by
    refine BitVec.eq_of_getLsbD_eq fun i _ => ?_
    have hi : ¬ count + i < count := by omega
    simp [getLsbD_low, hi]
  conv_lhs => rw [hsplit]
  rw [bitSteps_xor, bitSteps_of_clear poly count hclear, hhigh]

def byteStep (x : BitVec w) (byte : BitVec 8) : BitVec w :=
  bitSteps poly 8 (x ^^^ byte.setWidth w)

def check (init : BitVec w) (message : List (BitVec 8)) : BitVec w :=
  ~~~ message.foldl (byteStep poly) init

/-! ## Tables -/

/-- The row of every byte holds what is left of it after eight steps. -/
def IsTable (table : BitVec 8 → BitVec w) : Prop :=
  ∀ index, table index = bitSteps poly 8 (index.setWidth w)

def tableStep (table : BitVec 8 → BitVec w) (x : BitVec w) (byte : BitVec 8) :
    BitVec w :=
  table ((x ^^^ byte.setWidth w).setWidth 8) ^^^ (x >>> 8)

variable {poly}

theorem tableStep_eq {table : BitVec 8 → BitVec w} (h : IsTable poly table)
    (x : BitVec w) (byte : BitVec 8) :
    tableStep table x byte = byteStep poly x byte := by
  have hbyte : byte.setWidth w >>> 8 = 0#w := by
    refine BitVec.eq_of_getLsbD_eq fun i _ => ?_
    simp
  rw [tableStep, byteStep, h, bitSteps_low poly 8 (x ^^^ byte.setWidth w), low,
    BitVec.ushiftRight_xor_distrib, hbyte, BitVec.xor_zero]

theorem foldl_tableStep {table : BitVec 8 → BitVec w} (h : IsTable poly table)
    (message : List (BitVec 8)) (x : BitVec w) :
    message.foldl (tableStep table) x = message.foldl (byteStep poly) x := by
  induction message generalizing x with
  | nil => rfl
  | cons byte message ih => rw [List.foldl_cons, List.foldl_cons, tableStep_eq h, ih]

end Steps

/-! ## Messages no longer than the register -/

section Bursts

variable {w : Nat} {poly : BitVec w}

/-- A register that was divided shows in its top bit what the lowest bit was. -/
theorem bitStep_injective (htop : poly.getLsbD (w - 1) = true) :
    Function.Injective (bitStep poly) := by
  have hw : 0 < w := by
    by_contra hzero
    rw [BitVec.getLsbD_of_ge poly _ (by omega)] at htop
    cases htop
  have hclear : ∀ x : BitVec w, (x >>> 1).getLsbD (w - 1) = false := by
    intro x
    rw [BitVec.getLsbD_ushiftRight]
    exact BitVec.getLsbD_of_ge x _ (by omega)
  have hlowest : ∀ x : BitVec w, (bitStep poly x).getLsbD (w - 1) = x.getLsbD 0 := by
    intro x
    unfold bitStep
    split
    · next hbit => rw [BitVec.getLsbD_xor, hclear, htop, hbit]; rfl
    · next hbit => rw [hclear, Bool.eq_false_iff.mpr hbit]
  intro x y h
  have hbit : x.getLsbD 0 = y.getLsbD 0 := by rw [← hlowest, ← hlowest, h]
  have hshift : x >>> 1 = y >>> 1 := by
    simp only [bitStep, hbit] at h
    split at h
    · exact BitVec.xor_left_inj _ |>.mp h
    · exact h
  refine BitVec.eq_of_getLsbD_eq fun i _ => ?_
  cases i with
  | zero => exact hbit
  | succ i =>
      have hi := congrArg (fun z : BitVec w => z.getLsbD i) hshift
      simpa only [BitVec.getLsbD_ushiftRight, Nat.add_comm 1 i] using hi

theorem bitSteps_injective (htop : poly.getLsbD (w - 1) = true) (count : Nat) :
    Function.Injective (bitSteps poly count) := by
  induction count with
  | zero => exact fun _ _ h => h
  | succ count ih => exact fun _ _ h => bitStep_injective htop (ih h)

theorem byteStep_injective (htop : poly.getLsbD (w - 1) = true) (byte : BitVec 8) :
    Function.Injective fun x => byteStep poly x byte := by
  intro x y h
  exact BitVec.xor_left_inj _ |>.mp (bitSteps_injective htop 8 h)

theorem bitSteps_add (count more : Nat) (x : BitVec w) :
    bitSteps poly (count + more) x = bitSteps poly more (bitSteps poly count x) := by
  induction count generalizing x with
  | zero => rw [Nat.zero_add, bitSteps]
  | succ count ih => rw [Nat.succ_add, bitSteps, ih, bitSteps]

variable (w) in
/-- The message as one number, its first byte lowest. -/
def word : List (BitVec 8) → BitVec w
  | [] => 0#w
  | byte :: rest => byte.setWidth w ^^^ word rest <<< 8

theorem word_clear (message : List (BitVec 8)) {i : Nat} (hi : 8 * message.length ≤ i) :
    (word w message).getLsbD i = false := by
  induction message generalizing i with
  | nil => simp [word]
  | cons byte rest ih =>
      rw [List.length_cons] at hi
      have hrest := @ih (i - 8) (by omega)
      have hbyte := byte.getLsbD_of_ge i (by omega)
      simp [word, hrest, hbyte]

theorem word_shift {rest : List (BitVec 8)} (hfit : 8 * (rest.length + 1) ≤ w) :
    (word w rest <<< 8) >>> 8 = word w rest := by
  refine BitVec.eq_of_getLsbD_eq fun i hi => ?_
  rw [BitVec.getLsbD_ushiftRight, BitVec.getLsbD_shiftLeft]
  by_cases hin : 8 + i < w
  · simp [hin]
  · simp [hin, word_clear rest (show 8 * rest.length ≤ i by omega)]

/-- A short message is exclusive-ored into the register at once. -/
theorem foldl_byteStep_eq {message : List (BitVec 8)} (hfit : 8 * message.length ≤ w)
    (x : BitVec w) :
    message.foldl (byteStep poly) x =
      bitSteps poly (8 * message.length) (x ^^^ word w message) := by
  induction message generalizing x with
  | nil => simp [bitSteps, word]
  | cons byte rest ih =>
      rw [List.length_cons] at hfit
      have hclear : ∀ i < 8, (word w rest <<< 8).getLsbD i = false := by
        intro i hi
        simp [hi]
      -- the rest of the message moves down to the lowest bits in the first eight steps
      have hfirst : bitSteps poly 8 (x ^^^ word w (byte :: rest)) =
          byteStep poly x byte ^^^ word w rest := by
        rw [word, ← BitVec.xor_assoc, bitSteps_xor, bitSteps_of_clear poly 8 hclear,
          word_shift hfit]
        rfl
      rw [List.foldl_cons, ih (by omega), List.length_cons, Nat.mul_succ, Nat.add_comm,
        bitSteps_add, hfirst]

theorem word_injective {message message' : List (BitVec 8)}
    (hlength : message.length = message'.length) (hfit : 8 * message.length ≤ w)
    (h : word w message = word w message') : message = message' := by
  induction message generalizing message' with
  | nil => exact (List.length_eq_zero_iff.mp hlength.symm).symm
  | cons byte rest ih =>
      cases message' with
      | nil => cases hlength
      | cons byte' rest' =>
          rw [List.length_cons] at hfit hlength
          rw [List.length_cons] at hlength
          have hbit : ∀ i, (word w (byte :: rest)).getLsbD i =
              (word w (byte' :: rest')).getLsbD i := fun i => by rw [h]
          have hbyte : byte = byte' := by
            refine BitVec.eq_of_getLsbD_eq fun i hi => ?_
            have hlow := hbit i
            simpa [word, hi, show i < w by omega] using hlow
          have hrest : word w rest = word w rest' := by
            rw [hbyte, word, word, BitVec.xor_right_inj] at h
            rw [← word_shift hfit, h, word_shift (by omega)]
          rw [hbyte, ih (by omega) (by omega) hrest]

/-- No two messages that fit the register leave it in the same state. -/
theorem foldl_byteStep_injective (htop : poly.getLsbD (w - 1) = true)
    {message message' : List (BitVec 8)} (hlength : message.length = message'.length)
    (hfit : 8 * message.length ≤ w) {x : BitVec w}
    (h : message.foldl (byteStep poly) x = message'.foldl (byteStep poly) x) :
    message = message' := by
  rw [foldl_byteStep_eq hfit, foldl_byteStep_eq (by omega), hlength] at h
  have hwords := bitSteps_injective htop _ h
  exact word_injective hlength hfit (BitVec.xor_right_inj _ |>.mp hwords)

end Bursts

end EntropyOS.Foundation.Crc
