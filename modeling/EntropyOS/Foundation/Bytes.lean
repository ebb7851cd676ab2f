import Mathlib.Tactic
import EntropyOS.Foundation.Sizes

/-!
# Byte buffers and little-endian words

A buffer is a total function from offsets to bytes, so that slices and
overlays need no length bookkeeping; every reader states the offsets it looks
at.  Machine words are natural numbers, reduced by `u32` or `u64` wherever the
C arithmetic can wrap.
-/

namespace EntropyOS.Foundation

abbrev Buf := Nat → UInt8

def u32 (n : Nat) : Nat := n % 4294967296

def u64 (n : Nat) : Nat := n % 18446744073709551616

theorem u32_of_lt {n : Nat} (h : n < 4294967296) : u32 n = n :=
  Nat.mod_eq_of_lt h

theorem u32_lt (n : Nat) : u32 n < 4294967296 :=
  Nat.mod_lt _ (by decide)

theorem u64_add_inj {base a b : Nat} (ha : a < 18446744073709551616)
    (hb : b < 18446744073709551616)
    (h : u64 (base + a) = u64 (base + b)) : a = b := by
  unfold u64 at h
  omega

theorem ofNat_ne {n a b : Nat} [NeZero n] (ha : a < n) (hb : b < n)
    (hne : a ≠ b) : Fin.ofNat n a ≠ Fin.ofNat n b := by
  intro heq
  have hval := congrArg Fin.val heq
  simp only [Fin.ofNat, Nat.mod_eq_of_lt ha, Nat.mod_eq_of_lt hb] at hval
  exact hne hval

/-- Byte `i` of the little-endian representation of `n`. -/
def byteOf (n i : Nat) : UInt8 := UInt8.ofNat (n / 256 ^ i)

theorem byteOf_succ (n i : Nat) : byteOf n (i + 1) = byteOf (n / 256) i := by
  unfold byteOf
  rw [pow_succ', ← Nat.div_div_eq_div_mul]

theorem byteOf_zero_toNat (n : Nat) : (byteOf n 0).toNat = n % 256 := by
  simp [byteOf]

@[simp] theorem byteOf_zero_left (i : Nat) : byteOf 0 i = 0 := by
  simp [byteOf]

/-- The `width`-byte little-endian word at `offset`. -/
def readLe (buf : Buf) (offset : Nat) : (width : Nat) → Nat
  | 0 => 0
  | width + 1 => (buf offset).toNat + 256 * readLe buf (offset + 1) width

def storeLe (buf : Buf) (offset width value : Nat) : Buf :=
  fun k => if offset ≤ k ∧ k < offset + width then byteOf value (k - offset)
    else buf k

theorem storeLe_of_not_mem {buf : Buf} {offset width value k : Nat}
    (h : ¬ (offset ≤ k ∧ k < offset + width)) : storeLe buf offset width value k = buf k :=
  if_neg h

theorem readLe_lt (buf : Buf) (offset width : Nat) :
    readLe buf offset width < 256 ^ width := by
  induction width generalizing offset with
  | zero => simp [readLe]
  | succ width ih =>
      have hbyte := (buf offset).toNat_lt
      have htail := ih (offset + 1)
      rw [readLe, pow_succ']
      omega

theorem readLe_congr {buf buf' : Buf} {offset offset' width : Nat}
    (h : ∀ i < width, buf (offset + i) = buf' (offset' + i)) :
    readLe buf offset width = readLe buf' offset' width := by
  induction width generalizing offset offset' with
  | zero => rfl
  | succ width ih =>
      have hhead : buf offset = buf' offset' := by
        simpa using h 0 (Nat.succ_pos width)
      have htail : readLe buf (offset + 1) width =
          readLe buf' (offset' + 1) width := by
        apply ih
        intro i hi
        have hi' := h (i + 1) (Nat.succ_lt_succ hi)
        rwa [show offset + (i + 1) = offset + 1 + i by omega,
          show offset' + (i + 1) = offset' + 1 + i by omega] at hi'
      rw [readLe, readLe, hhead, htail]

/-- A word whose bytes are those of `n` reads back as `n`, reduced. -/
theorem readLe_of_bytes {buf : Buf} {offset width n : Nat}
    (h : ∀ i < width, buf (offset + i) = byteOf n i) :
    readLe buf offset width = n % 256 ^ width := by
  induction width generalizing offset n with
  | zero => simp [readLe, Nat.mod_one]
  | succ width ih =>
      have hhead : buf offset = byteOf n 0 := by
        simpa using h 0 (Nat.succ_pos width)
      have htail : readLe buf (offset + 1) width = n / 256 % 256 ^ width := by
        apply ih
        intro i hi
        have hi' := h (i + 1) (Nat.succ_lt_succ hi)
        rwa [show offset + (i + 1) = offset + 1 + i by omega,
          byteOf_succ] at hi'
      rw [readLe, hhead, htail, byteOf_zero_toNat, pow_succ', Nat.mod_mul]

theorem byteOf_readLe (buf : Buf) (offset : Nat) {width i : Nat}
    (hi : i < width) : byteOf (readLe buf offset width) i = buf (offset + i) := by
  induction width generalizing offset i with
  | zero => omega
  | succ width ih =>
      rw [readLe]
      have hbyte := (buf offset).toNat_lt
      cases i with
      | zero =>
          apply UInt8.toNat.inj
          rw [byteOf_zero_toNat]
          change _ = (buf offset).toNat
          omega
      | succ i =>
          rw [byteOf_succ, show ((buf offset).toNat +
            256 * readLe buf (offset + 1) width) / 256 =
              readLe buf (offset + 1) width by omega, ih _ (by omega)]
          exact congrArg buf (by omega)

theorem readLe_storeLe_same (buf : Buf) (offset width value : Nat) :
    readLe (storeLe buf offset width value) offset width =
      value % 256 ^ width := by
  apply readLe_of_bytes
  intro i hi
  have hin : offset ≤ offset + i ∧ offset + i < offset + width := by omega
  simp only [storeLe, if_pos hin, Nat.add_sub_cancel_left]

theorem readLe_storeLe_disjoint (buf : Buf)
    {offset width value offset' width' : Nat}
    (h : offset' + width' ≤ offset ∨ offset + width ≤ offset') :
    readLe (storeLe buf offset width value) offset' width' =
      readLe buf offset' width' := by
  apply readLe_congr
  intro i hi
  have hout : ¬ (offset ≤ offset' + i ∧ offset' + i < offset + width) := by
    omega
  simp only [storeLe, if_neg hout]

/-- Keep the first `size` bytes and clear the rest. -/
def Buf.clip (size : Nat) (buf : Buf) : Buf :=
  fun k => if k < size then buf k else 0

theorem Buf.clip_apply {size k : Nat} (buf : Buf) (h : k < size) :
    buf.clip size k = buf k := by
  simp [Buf.clip, h]

/-- `memcpy(buf + start, source, size)`. -/
def Buf.overlay (buf : Buf) (start size : Nat) (source : Buf) : Buf := fun k =>
  if start ≤ k ∧ k < start + size then source (k - start) else buf k

theorem Buf.overlay_zero (buf : Buf) (start : Nat) (source : Buf) :
    buf.overlay start 0 source = buf := by
  funext k
  exact if_neg (by omega)

theorem Buf.overlay_congr {buf source source' : Buf} {start size : Nat}
    (h : ∀ k < size, source k = source' k) :
    buf.overlay start size source = buf.overlay start size source' := by
  funext k
  unfold Buf.overlay
  split
  · exact h _ (by omega)
  · rfl

theorem Buf.overlay_append (buf source : Buf) (start size rest : Nat) :
    (buf.overlay start size source).overlay (start + size) rest
        (fun k => source (k + size)) =
      buf.overlay start (size + rest) source := by
  funext k
  unfold Buf.overlay
  by_cases hlater : start + size ≤ k ∧ k < start + size + rest
  · rw [if_pos hlater, if_pos (by omega)]
    exact congrArg source (by omega)
  · rw [if_neg hlater]
    by_cases hfirst : start ≤ k ∧ k < start + size
    · rw [if_pos hfirst, if_pos (by omega)]
    · rw [if_neg hfirst, if_neg (by omega)]

def Buf.ofList (bytes : List UInt8) : Buf := fun k => bytes.getD k 0

/-! ## Text in a field -/

section Text

variable {n : Nat} [NeZero n] {β : Type} {old field : Fin n → β} {i length : Nat}
  {x : Nat → β} {last : β}

/--
Up to place `i` the field is as before; from there on it holds `length` values of
`x`, and `last` behind them.
-/
def Stored (old field : Fin n → β) (i length : Nat) (x : Nat → β) (last : β) : Prop :=
  (∀ k < i, field (Fin.ofNat n k) = old (Fin.ofNat n k)) ∧
  (∀ k < length, field (Fin.ofNat n (i + k)) = x k) ∧
  field (Fin.ofNat n (i + length)) = last

theorem Stored.nil (hi : i < n) :
    Stored old (Function.update old (Fin.ofNat n i) last) i 0 x last := by
  refine ⟨fun k hk => ?_, fun k hk => absurd hk (Nat.not_lt_zero k), ?_⟩
  · exact Function.update_of_ne (ofNat_ne (by omega) hi (by omega)) _ _
  · exact Function.update_self _ _ _

theorem Stored.cons (hi : i < n)
    (h : Stored (Function.update old (Fin.ofNat n i) (x 0)) field (i + 1) length
      (fun k => x (k + 1)) last) :
    Stored old field i (length + 1) x last := by
  obtain ⟨hbefore, hrest, hlast⟩ := h
  refine ⟨fun k hk => ?_, fun k hk => ?_, ?_⟩
  · rw [hbefore k (by omega)]
    exact Function.update_of_ne (ofNat_ne (by omega) hi (by omega)) _ _
  · cases k with
    | zero => rw [Nat.add_zero, hbefore i (Nat.lt_succ_self i), Function.update_self]
    | succ k =>
        rw [show i + (k + 1) = i + 1 + k by omega]
        exact hrest k (by omega)
  · rw [show i + (length + 1) = i + 1 + length by omega]
    exact hlast

end Text

end EntropyOS.Foundation
