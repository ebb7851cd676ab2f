import EntropyOS.Gpt.Names
import EntropyOS.Libexfat.View

/-!
# Names in UTF-8 and in UTF-16

The conversions of `utf.c`.  A `wchar_t` of this compiler has 16 bits, so the
branches of the source for larger characters are never taken, and the bits that
they are for are lost.
-/

namespace EntropyOS.Libexfat

open EntropyOS.Foundation
open EntropyOS.Gpt (utf8Encode utf16Encode utf16EncodeChar)

/-- What `exfat_error` prints, and the error that is returned. -/
abbrev Fault := String × Int

def illegalUtf16 : Fault := ("illegal UTF-16 sequence", -eilseq)

def illegalUtf8 : Fault := ("illegal UTF-8 sequence", -eilseq)

def nameTooLong : Fault := ("name is too long", -enametoolong)

/-- The zero at the end, for which there has to be room. -/
def terminator {α : Type} [OfNat α 0] (outsize : Nat) : Except Fault (List α) :=
  if outsize = 0 then .error nameTooLong else .ok [0]

/-! ## From UTF-16 to UTF-8 -/

/-- `wchar_to_utf8`; a `wchar_t` is at most 0xffff. -/
def wcharToUtf8 (wc : UInt16) (outsize : Nat) : Option (List UInt8) :=
  let wc := wc.toNat
  if wc ≤ 0x7f then
    if outsize < 1 then none
    else some [UInt8.ofNat wc]
  else if wc ≤ 0x7ff then
    if outsize < 2 then none
    else some [UInt8.ofNat (0xc0 ||| wc >>> 6), UInt8.ofNat (0x80 ||| wc &&& 0x3f)]
  else
    if outsize < 3 then none
    else some [UInt8.ofNat (0xe0 ||| wc >>> 12), UInt8.ofNat (0x80 ||| wc >>> 6 &&& 0x3f),
      UInt8.ofNat (0x80 ||| wc &&& 0x3f)]

/-- `utf16_to_wchar`, for the first unit and those behind it. -/
def utf16ToWchar (first : UInt16) (rest : List UInt16) : Option (UInt16 × List UInt16) :=
  if first.toNat &&& 0xfc00 = 0xd800 then
    match rest with
    | [] => none
    | second :: rest =>
        if second.toNat &&& 0xfc00 ≠ 0xdc00 then
          none
        else
          let wc := UInt16.ofNat ((first.toNat &&& 0x3ff) <<< 10)
          let wc := wc ||| UInt16.ofNat (second.toNat &&& 0x3ff)
          some (wc + UInt16.ofNat 0x10000, rest)
  else
    some (first, rest)

/-- The loop of `exfat_utf16_to_utf8`; every round takes a unit. -/
def utf16ToUtf8Loop :
    (rounds : Nat) → (input : List UInt16) → (outsize : Nat) → Except Fault (List UInt8)
  | rounds + 1, first :: rest, outsize =>
      match utf16ToWchar first rest with
      | none => .error illegalUtf16
      | some (wc, rest) =>
          match wcharToUtf8 wc outsize with
          | none => .error nameTooLong
          | some bytes =>
              if wc = 0 then
                .ok bytes
              else
                (utf16ToUtf8Loop rounds rest (outsize - bytes.length)).map (bytes ++ ·)
  | _, _, outsize => terminator outsize

/-- `exfat_utf16_to_utf8`: the bytes that are written. -/
def utf16ToUtf8 (input : List UInt16) (outsize : Nat) : Except Fault (List UInt8) :=
  utf16ToUtf8Loop input.length input outsize

/-! ## From UTF-8 to UTF-16 -/

/-- What `utf8_to_wchar` takes from the first byte, and the size of the sequence. -/
def leadingByte (byte : UInt8) : Option (UInt16 × Nat) :=
  let byte := byte.toNat
  if byte &&& 0x80 = 0 then some (UInt16.ofNat byte, 1)
  else if byte &&& 0xe0 = 0xc0 then some (UInt16.ofNat ((byte &&& 0x1f) <<< 6), 2)
  else if byte &&& 0xf0 = 0xe0 then some (UInt16.ofNat ((byte &&& 0x0f) <<< 12), 3)
  else if byte &&& 0xf8 = 0xf0 then some (UInt16.ofNat ((byte &&& 0x07) <<< 18), 4)
  else if byte &&& 0xfc = 0xf8 then some (UInt16.ofNat ((byte &&& 0x03) <<< 24), 5)
  else if byte &&& 0xfe = 0xfc then some (UInt16.ofNat ((byte &&& 0x01) <<< 30), 6)
  else none

/-- The other bytes of a sequence; `left` of them are still to come. -/
def trailingBytes (wc : UInt16) : (left : Nat) → List UInt8 → Option (UInt16 × List UInt8)
  | 0, rest => some (wc, rest)
  | _ + 1, [] => none
  | left + 1, byte :: rest =>
      if byte.toNat &&& 0xc0 ≠ 0x80 then
        none
      else
        trailingBytes (wc ||| UInt16.ofNat ((byte.toNat &&& 0x3f) <<< (left * 6))) left rest

/-- `utf8_to_wchar`, for the first byte and those behind it. -/
def utf8ToWchar (first : UInt8) (rest : List UInt8) : Option (UInt16 × List UInt8) :=
  match leadingByte first with
  | none => none
  | some (wc, size) =>
      if rest.length + 1 < size then none else trailingBytes wc (size - 1) rest

/-- `wchar_to_utf16`; a `wchar_t` is always a unit. -/
def wcharToUtf16 (wc : UInt16) (outsize : Nat) : Option (List UInt16) :=
  if outsize = 0 then none else some [wc]

/-- The loop of `exfat_utf8_to_utf16`; every round takes a byte. -/
def utf8ToUtf16Loop :
    (rounds : Nat) → (input : List UInt8) → (outsize : Nat) → Except Fault (List UInt16)
  | rounds + 1, first :: rest, outsize =>
      match utf8ToWchar first rest with
      | none => .error illegalUtf8
      | some (wc, rest) =>
          match wcharToUtf16 wc outsize with
          | none => .error nameTooLong
          | some units =>
              (if wc = 0 then
                terminator (outsize - units.length)
              else
                utf8ToUtf16Loop rounds rest (outsize - units.length)).map (units ++ ·)
  | _, _, outsize => terminator outsize

/-- `exfat_utf8_to_utf16`: the units that are written. -/
def utf8ToUtf16 (input : List UInt8) (outsize : Nat) : Except Fault (List UInt16) :=
  utf8ToUtf16Loop input.length input outsize

/-! ## Names of nodes -/

def nameMax : Nat := 255

def utf8NameBufferMax : Nat := nameMax * 3 + 1

def getName (n : Nat) : Program Volume (List UInt8) := do
  let node ← getNode n
  match utf16ToUtf8 ((List.range nameMax).map node.name) utf8NameBufferMax with
  | .ok bytes => return bytes
  | .error (message, _) =>
      exfatError message
      -- exfat_bug("failed to convert name to UTF-8")
      trap

/-! ## One character -/

theorem ofNat_or_ofNat (a : Nat) {b : Nat} (k : Nat) (hb : b < 0x40) :
    UInt16.ofNat (a <<< (k + 6)) ||| UInt16.ofNat (b <<< k) =
      UInt16.ofNat ((a * 0x40 + b) <<< k) := by
  have hlow : b <<< k < 2 ^ (k + 6) := by
    rw [Nat.shiftLeft_eq, Nat.add_comm, pow_add]
    exact Nat.mul_lt_mul_of_pos_right hb (Nat.two_pow_pos k)
  rw [← UInt16.ofNat_or, Nat.shiftLeft_eq a, Nat.mul_comm a,
    ← Nat.two_pow_add_eq_or_of_lt hlow]
  simp only [Nat.shiftLeft_eq]
  ring_nf

def trailing (bits : Nat) : UInt8 := UInt8.ofNat (bits % 0x40 + 0x80)

theorem trailing_bits (bits : Nat) :
    (trailing bits).toNat &&& 0xc0 = 0x80 ∧ (trailing bits).toNat &&& 0x3f = bits % 0x40 := by
  have hall : ∀ t < 0x40, (UInt8.ofNat (t + 0x80)).toNat &&& 0xc0 = 0x80 ∧
      (UInt8.ofNat (t + 0x80)).toNat &&& 0x3f = t := by decide
  exact hall _ (Nat.mod_lt _ (by decide))

theorem trailingBytes_cons (a left bits : Nat) (rest : List UInt8) :
    trailingBytes (UInt16.ofNat (a <<< ((left + 1) * 6))) (left + 1) (trailing bits :: rest) =
      trailingBytes (UInt16.ofNat ((a * 0x40 + bits % 0x40) <<< (left * 6))) left rest := by
  obtain ⟨hmark, hbits⟩ := trailing_bits bits
  rw [trailingBytes, if_neg (by simpa using hmark), hbits, Nat.succ_mul,
    ofNat_or_ofNat a (left * 6) (Nat.mod_lt _ (by decide))]

theorem trailingBytes_nil {n m : Nat} (h : n = m) (rest : List UInt8) :
    trailingBytes (UInt16.ofNat (n <<< (0 * 6))) 0 rest = some (UInt16.ofNat m, rest) := by
  rw [h]
  rfl

theorem leadingByte_two : ∀ t < 0x20,
    leadingByte (UInt8.ofNat (t + 0xc0)) = some (UInt16.ofNat (t <<< 6), 2) := by
  decide

theorem leadingByte_three : ∀ t < 0x10,
    leadingByte (UInt8.ofNat (t + 0xe0)) = some (UInt16.ofNat (t <<< 12), 3) := by
  decide

theorem leadingByte_four : ∀ t < 8,
    leadingByte (UInt8.ofNat (t + 0xf0)) = some (UInt16.ofNat (t <<< 18), 4) := by
  decide

theorem leadingByte_one : ∀ t < 0x80,
    leadingByte (UInt8.ofNat t) = some (UInt16.ofNat t, 1) := by
  decide

theorem utf8ToWchar_of_lead {first : UInt8} {wc : UInt16} {others : List UInt8}
    (hlead : leadingByte first = some (wc, others.length + 1)) (rest : List UInt8) :
    utf8ToWchar first (others ++ rest) = trailingBytes wc others.length (others ++ rest) := by
  simp [utf8ToWchar, hlead]

theorem utf8ToWchar_encode (c : Char) (rest : List UInt8) :
    ∃ first others, String.utf8EncodeChar c = first :: others ∧
      utf8ToWchar first (others ++ rest) = some (UInt16.ofNat c.toNat, rest) := by
  have hchar : c.toNat < 0x110000 := by
    rcases c.valid with hlt | hlt <;> simp only [Char.toNat] <;> omega
  have hval : c.val.toNat = c.toNat := rfl
  unfold String.utf8EncodeChar
  simp only [hval]
  split
  · refine ⟨_, _, rfl, ?_⟩
    rw [utf8ToWchar_of_lead (leadingByte_one _ (by omega))]
    rfl
  split
  · refine ⟨_, [trailing c.toNat], rfl, ?_⟩
    rw [utf8ToWchar_of_lead (leadingByte_two _ (Nat.mod_lt _ (by decide)))]
    exact (trailingBytes_cons _ 0 _ _).trans (trailingBytes_nil (by omega) rest)
  split
  · refine ⟨_, [trailing (c.toNat / 64), trailing c.toNat], rfl, ?_⟩
    rw [utf8ToWchar_of_lead (leadingByte_three _ (Nat.mod_lt _ (by decide)))]
    exact (trailingBytes_cons _ 1 _ _).trans
      ((trailingBytes_cons _ 0 _ _).trans (trailingBytes_nil (by omega) rest))
  · refine ⟨_, [trailing (c.toNat / 4096), trailing (c.toNat / 64), trailing c.toNat], rfl, ?_⟩
    rw [utf8ToWchar_of_lead (leadingByte_four _ (Nat.mod_lt _ (by decide)))]
    exact (trailingBytes_cons _ 2 _ _).trans ((trailingBytes_cons _ 1 _ _).trans
      ((trailingBytes_cons _ 0 _ _).trans (trailingBytes_nil (by omega) rest)))

/-- A character of 16 bits is encoded as the standard has it. -/
theorem wcharToUtf8_eq {c : Char} (h : c.toNat < 0x10000) (outsize : Nat) :
    wcharToUtf8 (UInt16.ofNat c.toNat) outsize =
      if outsize < c.utf8Size then none else some (String.utf8EncodeChar c) := by
  have hunit : (UInt16.ofNat c.toNat).toNat = c.toNat := UInt16.toNat_ofNat_of_lt' h
  have hval : c.val.toNat = c.toNat := rfl
  have htrail : ∀ n, 0x80 ||| n &&& 0x3f = n % 0x40 + 0x80 := by
    have hall : ∀ t < 0x40, 0x80 ||| t = t + 0x80 := by decide
    intro n
    rw [Nat.and_two_pow_sub_one_eq_mod n 6, hall _ (Nat.mod_lt _ (by decide))]
  have htwo : ∀ t < 0x20, 0xc0 ||| t = t + 0xc0 := by decide
  have hthree : ∀ t < 0x10, 0xe0 ||| t = t + 0xe0 := by decide
  rw [← String.length_utf8EncodeChar]
  unfold wcharToUtf8 String.utf8EncodeChar
  have hsmall : c.toNat ≤ 0xffff := by omega
  simp only [hunit, hval, htrail, hsmall, Nat.shiftRight_eq_div_pow, if_true]
  split
  · rfl
  split
  · rw [htwo _ (by omega), show c.toNat / 2 ^ 6 = c.toNat / 64 % 0x20 by omega]
    rfl
  · rw [hthree _ (by omega), show c.toNat / 2 ^ 12 = c.toNat / 4096 % 0x10 by omega]
    rfl

/-- The code never writes a byte that starts a sequence of four. -/
theorem wcharToUtf8_head {wc : UInt16} {outsize : Nat} {bytes : List UInt8}
    (h : wcharToUtf8 wc outsize = some bytes) :
    ∃ first others, bytes = first :: others ∧ first < 0xf0 := by
  have hone : ∀ n ≤ 0x7f, UInt8.ofNat n < 0xf0 := by decide
  have htwo : ∀ t < 0x20, UInt8.ofNat (0xc0 ||| t) < 0xf0 := by decide
  have hthree : ∀ t < 0x10, UInt8.ofNat (0xe0 ||| t) < 0xf0 := by decide
  have hlt := wc.toNat_lt
  simp only [wcharToUtf8, Nat.shiftRight_eq_div_pow] at h
  split at h
  · next hsmall =>
      split at h <;> cases h
      exact ⟨_, _, rfl, hone _ hsmall⟩
  split at h
  · split at h <;> cases h
    exact ⟨_, _, rfl, htwo _ (by omega)⟩
  · split at h <;> cases h
    exact ⟨_, _, rfl, hthree _ (by omega)⟩

theorem utf8EncodeChar_head {c : Char} (h : ¬ c.toNat < 0x10000) :
    ∃ first others, String.utf8EncodeChar c = first :: others ∧ ¬ first < 0xf0 := by
  have hval : c.val.toNat = c.toNat := rfl
  have hall : ∀ t < 8, ¬ UInt8.ofNat (t + 0xf0) < 0xf0 := by decide
  unfold String.utf8EncodeChar
  simp only [hval]
  rw [if_neg (by omega), if_neg (by omega), if_neg (by omega)]
  exact ⟨_, _, rfl, hall _ (Nat.mod_lt _ (by decide))⟩

/-! ## Whole names -/

def Bmp (text : List Char) : Prop := ∀ c ∈ text, c.toNat < 0x10000

instance (text : List Char) : Decidable (Bmp text) := inferInstanceAs (Decidable (∀ _ ∈ _, _))

/-- The first character that is not in the first 16 bits. -/
theorem exists_of_not_bmp {text : List Char} (h : ¬ Bmp text) :
    ∃ before c after, text = before ++ c :: after ∧ Bmp before ∧ ¬ c.toNat < 0x10000 := by
  induction text with
  | nil => simp [Bmp] at h
  | cons d text ih =>
      by_cases hd : d.toNat < 0x10000
      · obtain ⟨before, c, after, rfl, hbefore, hc⟩ := ih (by simpa [Bmp, hd] using h)
        exact ⟨d :: before, c, after, rfl, by simpa [Bmp, hd] using hbefore, hc⟩
      · exact ⟨[], d, text, rfl, by simp [Bmp], hd⟩

section Storing

theorem utf8ToUtf16Loop_encode (c : Char) (bytes : List UInt8) (rounds outsize : Nat) :
    utf8ToUtf16Loop (rounds + 1) (String.utf8EncodeChar c ++ bytes) outsize =
      if outsize = 0 then .error nameTooLong
      else (if UInt16.ofNat c.toNat = 0 then terminator (outsize - 1)
        else utf8ToUtf16Loop rounds bytes (outsize - 1)).map ([UInt16.ofNat c.toNat] ++ ·) := by
  obtain ⟨first, others, hbytes, hdecode⟩ := utf8ToWchar_encode c bytes
  rw [hbytes, List.cons_append, utf8ToUtf16Loop, hdecode]
  by_cases hroom : outsize = 0
  · simp [wcharToUtf16, hroom]
  · simp [wcharToUtf16, hroom]

theorem ofNat_ne_zero {c : Char} (hc : c.toNat < 0x10000) (hpos : 0 < c.toNat) :
    UInt16.ofNat c.toNat ≠ 0 := by
  intro heq
  have hunit : (UInt16.ofNat c.toNat).toNat = c.toNat := UInt16.toNat_ofNat_of_lt' hc
  rw [heq, UInt16.toNat_zero] at hunit
  omega

theorem utf16Encode_cons {c : Char} (hc : c.toNat < 0x10000) (text : List Char) :
    utf16Encode (c :: text) = UInt16.ofNat c.toNat :: utf16Encode text := by
  simp [utf16Encode, utf16EncodeChar, hc]

theorem utf8Encode_cons (c : Char) (text : List Char) :
    utf8Encode (c :: text) = String.utf8EncodeChar c ++ utf8Encode text :=
  List.flatMap_cons ..

theorem utf8Encode_append (text more : List Char) :
    utf8Encode (text ++ more) = utf8Encode text ++ utf8Encode more :=
  List.flatMap_append ..

theorem utf16Encode_append (text more : List Char) :
    utf16Encode (text ++ more) = utf16Encode text ++ utf16Encode more :=
  List.flatMap_append ..

theorem exists_of_map {α : Type} {r : Except Fault (List α)} {xs ys : List α}
    (h : r.map (xs ++ ·) = .ok ys) : ∃ zs, r = .ok zs ∧ ys = xs ++ zs := by
  cases r with
  | error fault => simp [Except.map] at h
  | ok zs => exact ⟨zs, rfl, by simpa [Except.map] using h.symm⟩

theorem map_append {α : Type} (r : Except Fault (List α)) (xs ys : List α) :
    (r.map (ys ++ ·)).map (xs ++ ·) = r.map (xs ++ ys ++ ·) := by
  cases r <;> simp [Except.map]

theorem map_nil {α : Type} (r : Except Fault (List α)) : r.map ([] ++ ·) = r := by
  cases r <;> simp [Except.map]

/-- The characters of 16 bits are converted one after the other. -/
theorem utf8ToUtf16Loop_bmp {text : List Char} (hbmp : Bmp text)
    (hstring : ∀ c ∈ text, 0 < c.toNat) (bytes : List UInt8) (rounds outsize : Nat) :
    utf8ToUtf16Loop (rounds + text.length) (utf8Encode text ++ bytes) outsize =
      if outsize < text.length then .error nameTooLong
      else (utf8ToUtf16Loop rounds bytes (outsize - text.length)).map (utf16Encode text ++ ·) := by
  induction text generalizing outsize with
  | nil => exact (map_nil _).symm
  | cons c text ih =>
      have hc := hbmp c (List.mem_cons_self ..)
      have hne := ofNat_ne_zero hc (hstring c (List.mem_cons_self ..))
      rw [utf8Encode_cons, List.append_assoc, List.length_cons, ← Nat.add_assoc,
        utf8ToUtf16Loop_encode, if_neg hne, ih (fun d hd => hbmp d (List.mem_cons_of_mem _ hd))
          fun d hd => hstring d (List.mem_cons_of_mem _ hd), utf16Encode_cons hc]
      by_cases hroom : outsize = 0
      · simp [hroom]
      by_cases hrest : outsize - 1 < text.length
      · rw [if_neg hroom, if_pos hrest, if_pos (by omega)]
        rfl
      · rw [if_neg hroom, if_neg hrest, if_neg (by omega), map_append, Nat.sub_sub, Nat.add_comm 1]
        rfl

theorem length_le_utf8Encode (text : List Char) : text.length ≤ (utf8Encode text).length := by
  induction text with
  | nil => exact le_rfl
  | cons c text ih =>
      have hpos := c.utf8Size_pos
      rw [utf8Encode_cons, List.length_append, String.length_utf8EncodeChar, List.length_cons]
      omega

theorem utf8ToUtf16_bmp {text : List Char} (hbmp : Bmp text)
    (hstring : ∀ c ∈ text, 0 < c.toNat) (outsize : Nat) :
    utf8ToUtf16 (utf8Encode text) outsize =
      if text.length < outsize then .ok (utf16Encode text ++ [0]) else .error nameTooLong := by
  have hlength := length_le_utf8Encode text
  have hloop := utf8ToUtf16Loop_bmp hbmp hstring []
    ((utf8Encode text).length - text.length) outsize
  rw [Nat.sub_add_cancel hlength, List.append_nil] at hloop
  have hnil : ∀ rounds out, utf8ToUtf16Loop rounds [] out = terminator out := by
    intro rounds out
    cases rounds <;> rfl
  rw [utf8ToUtf16, hloop, hnil, terminator]
  by_cases hlt : text.length < outsize
  · rw [if_neg (by omega), if_neg (by omega), if_pos hlt]
    rfl
  · rw [if_neg hlt]
    by_cases heq : outsize < text.length
    · rw [if_pos heq]
    · rw [if_neg heq, if_pos (by omega)]
      rfl

theorem utf8ToUtf16Loop_length {text : List Char} {rounds outsize : Nat} {units : List UInt16}
    (h : utf8ToUtf16Loop rounds (utf8Encode text) outsize = .ok units) :
    units.length ≤ text.length + 1 := by
  have hend : ∀ {out : Nat} {units : List UInt16}, terminator out = .ok units →
      units.length = 1 := by
    intro out units hok
    rw [terminator] at hok
    split at hok <;> cases hok
    rfl
  induction text generalizing rounds outsize units with
  | nil =>
      cases rounds <;> exact (hend h).le
  | cons c text ih =>
      cases rounds with
      | zero =>
          rw [utf8ToUtf16Loop] at h
          · rw [hend h]
            omega
          · simp
      | succ rounds =>
          rw [utf8Encode_cons, utf8ToUtf16Loop_encode] at h
          split at h
          · cases h
          split at h
          · obtain ⟨last, hlast, rfl⟩ := exists_of_map h
            simp [hend hlast]
          · obtain ⟨rest, hrest, rfl⟩ := exists_of_map h
            have hle := ih hrest
            simp
            omega

theorem length_le_utf16Encode (text : List Char) : text.length ≤ (utf16Encode text).length := by
  induction text with
  | nil => exact le_rfl
  | cons c text ih =>
      have hpos : 0 < (utf16EncodeChar c).length := by
        unfold utf16EncodeChar
        split <;> simp
      simp only [utf16Encode, List.flatMap_cons, List.length_append, List.length_cons] at ih ⊢
      omega

theorem length_lt_utf16Encode {text : List Char} (h : ¬ Bmp text) :
    text.length < (utf16Encode text).length := by
  obtain ⟨before, c, after, rfl, -, hc⟩ := exists_of_not_bmp h
  have hbefore := length_le_utf16Encode before
  have hafter := length_le_utf16Encode after
  simp only [utf16Encode, List.flatMap_append, List.flatMap_cons, List.length_append,
    List.length_cons, utf16EncodeChar, if_neg hc, List.length_nil] at hbefore hafter ⊢
  omega

/-- A name is stored as its UTF-16 if and only if its characters have 16 bits, and it fits. -/
theorem utf8ToUtf16_right_iff {text : List Char} (hstring : ∀ c ∈ text, 0 < c.toNat)
    (outsize : Nat) : utf8ToUtf16 (utf8Encode text) outsize = .ok (utf16Encode text ++ [0]) ↔
      Bmp text ∧ text.length < outsize := by
  constructor
  · intro hok
    have hbmp : Bmp text := by
      by_contra hnot
      have hlong := length_lt_utf16Encode hnot
      have hshort := utf8ToUtf16Loop_length hok
      rw [List.length_append, List.length_singleton] at hshort
      omega
    refine ⟨hbmp, ?_⟩
    by_contra hlt
    rw [utf8ToUtf16_bmp hbmp hstring, if_neg hlt] at hok
    cases hok
  · rintro ⟨hbmp, hlt⟩
    rw [utf8ToUtf16_bmp hbmp hstring, if_pos hlt]

/-- An accent has a unit, and there has to be room for the zero behind it. -/
theorem accent_stored :
    utf8ToUtf16 (utf8Encode [Char.ofNat 0xE9]) 2 = .ok (utf16Encode [Char.ofNat 0xE9] ++ [0]) ∧
      utf8ToUtf16 (utf8Encode [Char.ofNat 0xE9]) 1 ≠
        .ok (utf16Encode [Char.ofNat 0xE9] ++ [0]) :=
  ⟨(utf8ToUtf16_right_iff (List.forall_mem_singleton.mpr (by decide)) 2).mpr
      ⟨List.forall_mem_singleton.mpr (by decide), by simp⟩,
    mt (utf8ToUtf16_right_iff (List.forall_mem_singleton.mpr (by decide)) 1).mp (by simp)⟩

end Storing

section Reading

theorem not_surrogate {c : Char} (hc : c.toNat < 0x10000) :
    (UInt16.ofNat c.toNat).toNat &&& 0xfc00 ≠ 0xd800 := by
  intro heq
  have hunit : (UInt16.ofNat c.toNat).toNat = c.toNat := UInt16.toNat_ofNat_of_lt' hc
  have hbits := congrArg (· >>> 10) heq
  simp only [hunit, Nat.shiftRight_and_distrib] at hbits
  have hmask : c.toNat >>> 10 &&& 0xfc00 >>> 10 = c.toNat / 2 ^ 10 % 2 ^ 6 := by
    rw [Nat.shiftRight_eq_div_pow]
    exact Nat.and_two_pow_sub_one_eq_mod _ 6
  rw [hmask] at hbits
  have hvalid := c.valid
  simp only [UInt32.isValidChar, Nat.isValidChar] at hvalid
  have hval : c.val.toNat = c.toNat := rfl
  omega

theorem utf16ToUtf8Loop_encode {c : Char} (hc : c.toNat < 0x10000) (hpos : 0 < c.toNat)
    (units : List UInt16) (rounds outsize : Nat) :
    utf16ToUtf8Loop (rounds + 1) (UInt16.ofNat c.toNat :: units) outsize =
      if outsize < c.utf8Size then .error nameTooLong
      else (utf16ToUtf8Loop rounds units (outsize - c.utf8Size)).map
        (String.utf8EncodeChar c ++ ·) := by
  have hchar : utf16ToWchar (UInt16.ofNat c.toNat) units =
      some (UInt16.ofNat c.toNat, units) := if_neg (not_surrogate hc)
  rw [utf16ToUtf8Loop, hchar]
  simp only [wcharToUtf8_eq hc]
  by_cases hroom : outsize < c.utf8Size
  · simp [hroom]
  · simp [hroom, ofNat_ne_zero hc hpos]

theorem utf16ToUtf8Loop_bmp {text : List Char} (hbmp : Bmp text)
    (hstring : ∀ c ∈ text, 0 < c.toNat) (units : List UInt16) (rounds outsize : Nat) :
    utf16ToUtf8Loop (rounds + text.length) (utf16Encode text ++ units) outsize =
      if outsize < (utf8Encode text).length then .error nameTooLong
      else (utf16ToUtf8Loop rounds units (outsize - (utf8Encode text).length)).map
        (utf8Encode text ++ ·) := by
  induction text generalizing outsize with
  | nil => exact (map_nil _).symm
  | cons c text ih =>
      have hc := hbmp c (List.mem_cons_self ..)
      have hpos := hstring c (List.mem_cons_self ..)
      rw [utf16Encode_cons hc, List.cons_append, List.length_cons, ← Nat.add_assoc,
        utf16ToUtf8Loop_encode hc hpos, ih (fun d hd => hbmp d (List.mem_cons_of_mem _ hd))
          fun d hd => hstring d (List.mem_cons_of_mem _ hd), utf8Encode_cons, List.length_append,
        String.length_utf8EncodeChar]
      by_cases hroom : outsize < c.utf8Size
      · rw [if_pos hroom, if_pos (by omega)]
      by_cases hrest : outsize - c.utf8Size < (utf8Encode text).length
      · rw [if_neg hroom, if_pos hrest, if_pos (by omega)]
        rfl
      · rw [if_neg hroom, if_neg hrest, if_neg (by omega), map_append, Nat.sub_sub]

/-- The first byte of what is read never starts a sequence of four. -/
theorem utf16ToUtf8Loop_head {rounds outsize : Nat} {units : List UInt16}
    {bytes : List UInt8} (h : utf16ToUtf8Loop rounds units outsize = .ok bytes) :
    ∃ first others, bytes = first :: others ∧ first < 0xf0 := by
  unfold utf16ToUtf8Loop at h
  split at h
  · split at h
    · cases h
    split at h
    · cases h
    · next hbytes =>
        obtain ⟨first, others, rfl, hfirst⟩ := wcharToUtf8_head hbytes
        split at h
        · cases h
          exact ⟨first, others, rfl, hfirst⟩
        · obtain ⟨rest, -, rfl⟩ := exists_of_map h
          exact ⟨first, others ++ rest, rfl, hfirst⟩
  · rw [terminator] at h
    split at h <;> cases h
    exact ⟨0, [], rfl, by decide⟩

/-- What is read of a name stops being right at the first larger character. -/
theorem utf16ToUtf8Loop_ne {before : List Char} (hbmp : Bmp before)
    (hstring : ∀ d ∈ before, 0 < d.toNat) {c : Char} (hc : ¬ c.toNat < 0x10000)
    (units : List UInt16) (after : List UInt8) (rounds outsize : Nat) :
    utf16ToUtf8Loop (rounds + before.length) (utf16Encode before ++ units) outsize ≠
      .ok (utf8Encode before ++ (String.utf8EncodeChar c ++ after)) := by
  intro hok
  rw [utf16ToUtf8Loop_bmp hbmp hstring] at hok
  split at hok
  · cases hok
  obtain ⟨rest, hrest, heq⟩ := exists_of_map hok
  obtain ⟨first, others, rfl, hfirst⟩ := utf16ToUtf8Loop_head hrest
  obtain ⟨byte, bytes, hbytes, hlarge⟩ := utf8EncodeChar_head hc
  rw [hbytes] at heq
  have hsame := List.append_cancel_left heq
  simp only [List.cons_append, List.cons.injEq] at hsame
  exact hlarge (hsame.1 ▸ hfirst)

theorem utf16Encode_length {text : List Char} (hbmp : Bmp text) :
    (utf16Encode text).length = text.length := by
  induction text with
  | nil => rfl
  | cons c text ih =>
      rw [utf16Encode_cons (hbmp c (List.mem_cons_self ..)), List.length_cons,
        ih fun d hd => hbmp d (List.mem_cons_of_mem _ hd), List.length_cons]

/-- A name ends at the first zero, or with the buffer. -/
theorem utf16ToUtf8Loop_end {units : List UInt16} (hend : ∀ unit ∈ units.head?, unit = 0)
    (outsize : Nat) : utf16ToUtf8Loop units.length units outsize = terminator outsize := by
  cases units with
  | nil => rfl
  | cons unit units =>
      obtain rfl := hend unit rfl
      have hzero : utf16ToWchar 0 units = some (0, units) := if_neg (by decide)
      rw [List.length_cons, utf16ToUtf8Loop, hzero, terminator]
      by_cases hroom : outsize = 0
      · simp [wcharToUtf8, hroom]
      · simp [wcharToUtf8, hroom]

theorem utf16ToUtf8_bmp {text : List Char} (hbmp : Bmp text)
    (hstring : ∀ c ∈ text, 0 < c.toNat) {units : List UInt16}
    (hend : ∀ unit ∈ units.head?, unit = 0) (outsize : Nat) :
    utf16ToUtf8 (utf16Encode text ++ units) outsize =
      if (utf8Encode text).length < outsize then .ok (utf8Encode text ++ [0])
      else .error nameTooLong := by
  rw [utf16ToUtf8, List.length_append, utf16Encode_length hbmp,
    Nat.add_comm text.length, utf16ToUtf8Loop_bmp hbmp hstring, utf16ToUtf8Loop_end hend,
    terminator]
  by_cases hlt : (utf8Encode text).length < outsize
  · rw [if_neg (by omega), if_neg (by omega), if_pos hlt]
    rfl
  · rw [if_neg hlt]
    by_cases heq : outsize < (utf8Encode text).length
    · rw [if_pos heq]
    · rw [if_neg heq, if_pos (by omega)]
      rfl

theorem head?_replicate_zero (m : Nat) :
    ∀ unit ∈ (List.replicate m (0 : UInt16)).head?, unit = 0 := by
  cases m with
  | zero => simp
  | succ m => simp [List.replicate_succ]

/-- A name is read as its UTF-8 if and only if its characters have 16 bits, and it fits. -/
theorem utf16ToUtf8_right_iff {text : List Char} (hstring : ∀ c ∈ text, 0 < c.toNat)
    (m outsize : Nat) :
    utf16ToUtf8 (utf16Encode text ++ List.replicate m 0) outsize =
        .ok (utf8Encode text ++ [0]) ↔ Bmp text ∧ (utf8Encode text).length < outsize := by
  constructor
  · intro hok
    have hbmp : Bmp text := by
      by_contra hnot
      obtain ⟨before, c, after, rfl, hbefore, hc⟩ := exists_of_not_bmp hnot
      have hshort := fun d hd => hstring d (List.mem_append_left (c :: after) hd)
      rw [utf16Encode_append, utf8Encode_append, utf8Encode_cons, List.append_assoc,
        List.append_assoc, List.append_assoc, utf16ToUtf8, List.length_append,
        utf16Encode_length hbefore, Nat.add_comm] at hok
      exact utf16ToUtf8Loop_ne hbefore hshort hc _ _ _ outsize hok
    refine ⟨hbmp, ?_⟩
    by_contra hlt
    rw [utf16ToUtf8_bmp hbmp hstring (head?_replicate_zero m), if_neg hlt] at hok
    cases hok
  · rintro ⟨hbmp, hlt⟩
    rw [utf16ToUtf8_bmp hbmp hstring (head?_replicate_zero m), if_pos hlt]

theorem accent_length : (utf8Encode [Char.ofNat 0xE9]).length = 2 := rfl

/-- An accent has two bytes, and there has to be room for the zero behind them. -/
theorem accent_read :
    utf16ToUtf8 (utf16Encode [Char.ofNat 0xE9] ++ List.replicate 5 0) 3 =
        .ok (utf8Encode [Char.ofNat 0xE9] ++ [0]) ∧
      utf16ToUtf8 (utf16Encode [Char.ofNat 0xE9] ++ List.replicate 5 0) 2 ≠
        .ok (utf8Encode [Char.ofNat 0xE9] ++ [0]) :=
  ⟨(utf16ToUtf8_right_iff (List.forall_mem_singleton.mpr (by decide)) 5 3).mpr
      ⟨List.forall_mem_singleton.mpr (by decide), accent_length.trans_lt (by decide)⟩,
    mt (utf16ToUtf8_right_iff (List.forall_mem_singleton.mpr (by decide)) 5 2).mp
      fun h => absurd (accent_length ▸ h.2) (by decide)⟩

theorem utf8Encode_length_le {text : List Char} (hbmp : Bmp text) :
    (utf8Encode text).length ≤ text.length * 3 := by
  induction text with
  | nil => exact le_rfl
  | cons c text ih =>
      have hc := hbmp c (List.mem_cons_self ..)
      have hle := ih fun d hd => hbmp d (List.mem_cons_of_mem _ hd)
      have hsize : c.utf8Size ≠ 4 := by
        rw [ne_eq, Char.utf8Size_eq_four_iff, UInt32.lt_iff_toNat_lt]
        exact fun hlarge => absurd hc (Nat.not_lt.mpr hlarge)
      have hfour := c.utf8Size_le_four
      rw [utf8Encode_cons, List.length_append, String.length_utf8EncodeChar, List.length_cons]
      omega

end Reading

section Keeping

def Node.withName (node : Node) (units : List UInt16) : Node :=
  { node with name := fun k => units.getD k (node.name k) }

theorem map_getD_range {xs : List UInt16} (ys : List UInt16) (old : Nat → UInt16) {n : Nat}
    (h : xs.length ≤ n) :
    (List.range n).map (fun k => (xs ++ ys).getD k (old k)) =
      xs ++ (List.range (n - xs.length)).map fun k => ys.getD k (old (xs.length + k)) := by
  obtain ⟨m, rfl⟩ := Nat.exists_eq_add_of_le h
  rw [List.range_add, List.map_append, List.map_map, Nat.add_sub_cancel_left]
  congr 1
  · refine List.ext_getElem (by simp) fun i hi hi' => ?_
    simp [List.getElem?_append_left hi', hi']
  · refine List.map_congr_left fun i _ => ?_
    simp [List.getElem?_append_right]

theorem head?_map_range (old : Nat → UInt16) (n : Nat) :
    ∀ unit ∈ ((List.range n).map fun k => ([0] : List UInt16).getD k (old k)).head?,
      unit = 0 := by
  cases n with
  | zero => simp
  | succ n => simp [List.range_succ_eq_map]

/-- `exfat_get_name` returns what the first 255 units are converted to. -/
theorem getName_returns_iff {ef : Volume} {n : Nat} {bytes : List UInt8} :
    Returns (getName n) ef bytes ↔
      utf16ToUtf8 ((List.range nameMax).map (ef.nodes n).name) utf8NameBufferMax = .ok bytes := by
  have hnode : getNode n ef = some (ef.nodes n, ef) := rfl
  rw [Returns, getName, Program.bind_of_some hnode]
  cases utf16ToUtf8 ((List.range nameMax).map (ef.nodes n).name) utf8NameBufferMax with
  | ok read =>
      constructor
      · rintro ⟨ef', hrun⟩
        cases hrun
        rfl
      · rintro ⟨⟩
        exact ⟨ef, rfl⟩
  | error fault =>
      refine iff_of_false ?_ nofun
      rintro ⟨ef', hrun⟩
      obtain ⟨_, _, -, htrap⟩ := Program.exists_of_bind hrun
      cases htrap

/-- What is stored of a name starts with its characters of 16 bits. -/
theorem utf8ToUtf16_before {before : List Char} (hbmp : Bmp before)
    (hstring : ∀ d ∈ before, 0 < d.toNat) {c : Char} {after : List Char} {outsize : Nat}
    {units : List UInt16}
    (h : utf8ToUtf16 (utf8Encode (before ++ c :: after)) outsize = .ok units) :
    ∃ rest, units = utf16Encode before ++ rest ∧ before.length < outsize := by
  have hlength := length_le_utf8Encode before
  have hpos := c.utf8Size_pos
  have hrounds : ∃ rounds, (utf8Encode (before ++ c :: after)).length =
      rounds + 1 + before.length := by
    rw [utf8Encode_append, utf8Encode_cons, List.length_append, List.length_append,
      String.length_utf8EncodeChar]
    exact ⟨(utf8Encode before).length + (c.utf8Size + (utf8Encode after).length) - 1 -
      before.length, by omega⟩
  obtain ⟨rounds, hrounds⟩ := hrounds
  rw [utf8ToUtf16, hrounds, utf8Encode_append, utf8Encode_cons,
    utf8ToUtf16Loop_bmp hbmp hstring] at h
  split at h
  · cases h
  obtain ⟨rest, hrest, rfl⟩ := exists_of_map h
  refine ⟨rest, rfl, ?_⟩
  rw [utf8ToUtf16Loop_encode] at hrest
  split at hrest
  · cases hrest
  · omega

/--
A name without zeros that is put in a node as `exfat_utf8_to_utf16` converts it comes back
from `exfat_get_name` as it was given if and only if all its characters have 16 bits and
there are at most 255 of them, whatever was in the node before.
-/
theorem names_kept_iff {text : List Char} (hstring : ∀ c ∈ text, 0 < c.toNat) (ef : Volume)
    (n : Nat) :
    (∃ units, utf8ToUtf16 (utf8Encode text) (nameMax + 1) = .ok units ∧
      Returns (getName n) (ef.setNode n ((ef.nodes n).withName units))
        (utf8Encode text ++ [0])) ↔
      Bmp text ∧ text.length ≤ nameMax := by
  simp only [getName_returns_iff, VolumeOn.setNode_nodes_self, Node.withName]
  constructor
  · rintro ⟨units, hunits, hok⟩
    have hbmp : Bmp text := by
      by_contra hnot
      obtain ⟨before, c, after, rfl, hbefore, hc⟩ := exists_of_not_bmp hnot
      have hshort := fun d hd => hstring d (List.mem_append_left (c :: after) hd)
      obtain ⟨rest, rfl, hroom⟩ := utf8ToUtf16_before hbefore hshort hunits
      rw [← utf16Encode_length hbefore, Nat.lt_succ_iff] at hroom
      rw [map_getD_range rest _ hroom, utf8Encode_append, utf8Encode_cons, List.append_assoc,
        List.append_assoc, utf16ToUtf8, List.length_append, utf16Encode_length hbefore,
        Nat.add_comm] at hok
      exact utf16ToUtf8Loop_ne hbefore hshort hc _ _ _ _ hok
    refine ⟨hbmp, ?_⟩
    by_contra hlt
    rw [utf8ToUtf16_bmp hbmp hstring, if_neg (by omega)] at hunits
    cases hunits
  · rintro ⟨hbmp, hle⟩
    have hbytes := utf8Encode_length_le hbmp
    have hunits := utf16Encode_length hbmp
    refine ⟨_, (utf8ToUtf16_bmp hbmp hstring _).trans (if_pos (by omega)), ?_⟩
    rw [map_getD_range [0] _ (by omega), utf16ToUtf8_bmp hbmp hstring (head?_map_range _ _),
      if_pos]
    simp only [utf8NameBufferMax]
    omega

/-- An accent is kept in a node that held another name, and a smiley is not. -/
theorem accent_kept :
    let ef := smallVolume.setNode 1 { emptyNode with name := fun _ => 0x58 }
    (∃ units, utf8ToUtf16 (utf8Encode [Char.ofNat 0xE9]) (nameMax + 1) = .ok units ∧
      Returns (getName 1) (ef.setNode 1 ((ef.nodes 1).withName units))
        (utf8Encode [Char.ofNat 0xE9] ++ [0])) ∧
    ¬ ∃ units, utf8ToUtf16 (utf8Encode [Char.ofNat 0x1F600]) (nameMax + 1) = .ok units ∧
      Returns (getName 1) (ef.setNode 1 ((ef.nodes 1).withName units))
        (utf8Encode [Char.ofNat 0x1F600] ++ [0]) := by
  intro ef
  constructor
  · exact (names_kept_iff (List.forall_mem_singleton.mpr (by decide)) ef 1).mpr
      ⟨List.forall_mem_singleton.mpr (by decide), by simp [nameMax]⟩
  · refine mt (names_kept_iff (List.forall_mem_singleton.mpr (by decide)) ef 1).mp fun h => ?_
    exact absurd (h.1 _ (List.mem_singleton_self _)) (by decide)

end Keeping

end EntropyOS.Libexfat
