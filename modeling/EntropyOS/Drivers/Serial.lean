import EntropyOS.Foundation.Bytes

/-!
# The serial formatter

`serial_vformat_impl` of `debug_serial.h`, which `serial_vformat` of `serial.c`
repeats.  One check of the room left stands before every round of its loop, and an
unknown directive writes two characters in a round.
-/

namespace EntropyOS.Serial

open EntropyOS.Foundation

inductive Arg where
  | string (s : Option (List UInt8))
  | int (v : Int32)
  | unsigned (v : UInt32)
  | longLong (v : UInt64)
  | pointer (p : UInt64)

inductive Directive where
  | literal (c : UInt8)
  | percent
  | string
  | char
  | decimal
  | unsigned
  | hex
  | longHex
  | pointer
  | unknown (d : UInt8)
  /-- A `%` at the end. -/
  | trailing
  deriving DecidableEq

/-- The directive that begins with `c`, and what stands behind it. -/
def takeDirective (c : UInt8) (fmt : List UInt8) : Directive × List UInt8 :=
  if c ≠ 0x25 then (.literal c, fmt)
  else
    match fmt with
    | [] => (.trailing, [])
    | d :: rest =>
        if d = 0x25 then (.percent, rest)
        else if d = 0x73 then (.string, rest)
        else if d = 0x63 then (.char, rest)
        else if d = 0x64 ∨ d = 0x69 then (.decimal, rest)
        else if d = 0x75 then (.unsigned, rest)
        else if d = 0x78 then (.hex, rest)
        else if d = 0x6C ∧ rest.take 2 = [0x6C, 0x78] then (.longHex, rest.drop 2)
        else if d = 0x70 then (.pointer, rest)
        else (.unknown d, rest)

theorem length_takeDirective (c : UInt8) (fmt : List UInt8) :
    (takeDirective c fmt).2.length ≤ fmt.length := by
  unfold takeDirective
  split
  · exact le_rfl
  · cases fmt with
    | nil => exact le_rfl
    | cons d rest =>
        simp only [List.length_cons]
        split_ifs <;> simp
        omega

/-! ## Numbers -/

def hexDigit (d : Nat) : UInt8 :=
  if d < 10 then .ofNat (0x30 + d) else .ofNat (0x61 + d - 10)

def digits (base v : Nat) : List UInt8 :=
  if v = 0 then [0x30] else (Nat.digits base v).map hexDigit

/-- `tmp` for `%d`, with the sign at the end. -/
def signedDigits (v : Int32) : List UInt8 :=
  digits 10 v.toInt.natAbs ++ if v < 0 then [0x2D] else []

/-! ## Items -/

inductive Item where
  /-- One character. -/
  | put (c : UInt8)
  /-- Characters, while there is room. -/
  | text (bytes : List UInt8)
  /-- `0x` if there is room for it, and the digits. -/
  | pointer (bytes : List UInt8)
  /-- The `%` and the character after it. -/
  | unknown (d : UInt8)

def nullText : List UInt8 := [0x28, 0x6E, 0x75, 0x6C, 0x6C, 0x29]

/-- Take the argument of a directive; `none` if it has another type or is missing. -/
def Directive.item : Directive → List Arg → Option (Item × List Arg)
  | .literal c, args => some (.put c, args)
  | .percent, args => some (.put 0x25, args)
  | .trailing, args => some (.put 0x25, args)
  | .unknown d, args => some (.unknown d, args)
  | .string, .string s :: args => some (.text (s.getD nullText), args)
  | .char, .int v :: args => some (.put v.toUInt32.toUInt8, args)
  | .decimal, .int v :: args => some (.text (signedDigits v).reverse, args)
  | .unsigned, .unsigned v :: args => some (.text (digits 10 v.toNat).reverse, args)
  | .hex, .unsigned v :: args => some (.text (digits 16 v.toNat).reverse, args)
  | .longHex, .longLong v :: args => some (.text (digits 16 v.toNat).reverse, args)
  | .pointer, .pointer p :: args => some (.pointer (digits 16 p.toNat).reverse, args)
  | _, _ => none

/-! ## Writing -/

/-- `buf` and `pos`. -/
structure Output where
  buf : Buf
  pos : Nat
  /-- The indices written so far, which only the model keeps. -/
  written : List Nat

/-- `buf[pos++] = c`. -/
def Output.put (o : Output) (c : UInt8) : Output where
  buf := Function.update o.buf o.pos c
  pos := o.pos + 1
  written := o.written ++ [o.pos]

/-- The loops `while (... && pos + 1 < buflen)`. -/
def Output.putText (buflen : Nat) : List UInt8 → Output → Output
  | [], o => o
  | c :: rest, o => if o.pos + 1 < buflen then putText buflen rest (o.put c) else o

def Item.write (buflen : Nat) : Item → Output → Output
  | .put c, o => o.put c
  | .text bytes, o => o.putText buflen bytes
  | .pointer bytes, o =>
      if o.pos + 3 < buflen then ((o.put 0x30).put 0x78).putText buflen bytes
      else o.putText buflen bytes
  | .unknown d, o => (o.put 0x25).put d

def formatLoop (buflen : Nat) (fmt : List UInt8) (args : List Arg) (o : Output) :
    Option Output :=
  match fmt with
  | [] => some o
  | c :: fmt =>
      if o.pos + 1 < buflen then do
        let taken := takeDirective c fmt
        let (item, args) ← taken.1.item args
        formatLoop buflen taken.2 args (item.write buflen o)
      else some o
termination_by fmt.length
decreasing_by
  exact Nat.lt_succ_of_le (length_takeDirective c fmt)

/-- `buf[pos] = '\0'`. -/
def Output.terminate (o : Output) : Output :=
  { o with buf := Function.update o.buf o.pos 0, written := o.written ++ [o.pos] }

def serialVformatImpl (buf : Buf) (buflen : Nat) (fmt : List UInt8) (args : List Arg) :
    Option Output := do
  let o ← formatLoop buflen fmt args ⟨buf, 0, []⟩
  return o.terminate

/-! ## The items of a call -/

/-- The items of a format with its arguments; `none` if the types do not match. -/
def items (fmt : List UInt8) (args : List Arg) : Option (List Item) :=
  match fmt with
  | [] => some []
  | c :: fmt => do
      let taken := takeDirective c fmt
      let (item, args) ← taken.1.item args
      let rest ← items taken.2 args
      return item :: rest
termination_by fmt.length
decreasing_by
  exact Nat.lt_succ_of_le (length_takeDirective c fmt)

def writeItems (buflen : Nat) : List Item → Output → Output
  | [], o => o
  | item :: rest, o =>
      if o.pos + 1 < buflen then writeItems buflen rest (item.write buflen o) else o

theorem formatLoop_eq (buflen : Nat) {fmt : List UInt8} {args : List Arg}
    {all : List Item} (h : items fmt args = some all) (o : Output) :
    formatLoop buflen fmt args o = some (writeItems buflen all o) := by
  fun_induction items fmt args generalizing all o with
  | case1 args =>
      obtain rfl := Option.some.inj h
      rw [formatLoop, writeItems]
  | case2 args c fmt taken =>
      rename_i ih
      cases htaken : taken.1.item args with
      | none => simp [htaken] at h
      | some r =>
          obtain ⟨item, args'⟩ := r
          cases hrest : items taken.2 args' with
          | none => simp [htaken, hrest] at h
          | some rest =>
              obtain rfl : item :: rest = all := by simpa [htaken, hrest] using h
              have hloop := ih args' hrest (item.write buflen o)
              simp only [taken] at htaken hloop
              rw [formatLoop, writeItems]
              split
              · simpa [htaken] using hloop
              · rfl

/-! ## The fill level -/

structure Output.Contiguous (o : Output) : Prop where
  written : o.written = List.range o.pos

theorem Output.Contiguous.put {o : Output} (h : o.Contiguous) (c : UInt8) :
    (o.put c).Contiguous :=
  ⟨by rw [Output.put, h.written, List.range_succ]⟩

theorem Output.Contiguous.putText {o : Output} (h : o.Contiguous) (buflen : Nat)
    (bytes : List UInt8) : (o.putText buflen bytes).Contiguous := by
  induction bytes generalizing o with
  | nil => exact h
  | cons c rest ih =>
      rw [Output.putText]
      split
      · exact ih (h.put c)
      · exact h

theorem Output.Contiguous.write {o : Output} (h : o.Contiguous) (buflen : Nat)
    (item : Item) : (item.write buflen o).Contiguous := by
  cases item with
  | put c => exact h.put c
  | text bytes => exact h.putText buflen bytes
  | pointer bytes =>
      rw [Item.write]
      split
      · exact ((h.put 0x30).put 0x78).putText buflen bytes
      · exact h.putText buflen bytes
  | unknown d => exact (h.put 0x25).put d

theorem Output.Contiguous.writeItems {o : Output} (h : o.Contiguous) (buflen : Nat)
    (all : List Item) : (Serial.writeItems buflen all o).Contiguous := by
  induction all generalizing o with
  | nil => exact h
  | cons item rest ih =>
      rw [Serial.writeItems]
      split
      · exact ih (h.write buflen item)
      · exact h

theorem putText_pos {buflen : Nat} (bytes : List UInt8) {o : Output}
    (h : o.pos < buflen) :
    (o.putText buflen bytes).pos = min (o.pos + bytes.length) (buflen - 1) := by
  induction bytes generalizing o with
  | nil =>
      rw [Output.putText, List.length_nil]
      omega
  | cons c rest ih =>
      rw [Output.putText, List.length_cons]
      split
      · next hroom =>
        have hput : (o.put c).pos = o.pos + 1 := rfl
        rw [ih (by omega), hput]
        omega
      · omega

/-- How many characters an item has from a place `pos` on. -/
def Item.length (buflen pos : Nat) : Item → Nat
  | .put _ => 1
  | .text bytes => bytes.length
  | .pointer bytes => if pos + 3 < buflen then 2 + bytes.length else bytes.length
  | .unknown _ => 2

def Item.IsUnknown : Item → Prop
  | .unknown _ => True
  | _ => False

theorem Item.IsUnknown.exists_eq {item : Item} (h : item.IsUnknown) :
    ∃ d, item = .unknown d := by
  cases item with
  | unknown d => exact ⟨d, rfl⟩
  | put c => exact h.elim
  | text bytes => exact h.elim
  | pointer bytes => exact h.elim

/-- Only an unknown directive is not cut off at the last place but one. -/
theorem Item.write_pos {buflen : Nat} (item : Item) {o : Output} (h : o.pos + 1 < buflen) :
    (item.IsUnknown → (item.write buflen o).pos = o.pos + 2) ∧
    (¬ item.IsUnknown → (item.write buflen o).pos =
      min (o.pos + item.length buflen o.pos) (buflen - 1)) := by
  cases item with
  | put c =>
      refine ⟨False.elim, fun _ => ?_⟩
      change o.pos + 1 = min (o.pos + 1) (buflen - 1)
      omega
  | text bytes => exact ⟨False.elim, fun _ => putText_pos bytes (by omega)⟩
  | pointer bytes =>
      refine ⟨False.elim, fun _ => ?_⟩
      have hpos : ((o.put 0x30).put 0x78).pos = o.pos + 2 := rfl
      rw [Item.write, Item.length]
      split
      · rw [putText_pos bytes (by omega), hpos, Nat.add_assoc]
      · exact putText_pos bytes (by omega)
  | unknown d => exact ⟨fun _ => rfl, fun h => absurd trivial h⟩

/-- The fill level after items that there was room for. -/
def fill (buflen pos : Nat) (all : List Item) : Nat :=
  all.foldl (fun pos item => pos + item.length buflen pos) pos

theorem le_fill (buflen pos : Nat) (all : List Item) : pos ≤ fill buflen pos all := by
  induction all generalizing pos with
  | nil => exact le_rfl
  | cons item rest ih => exact (Nat.le_add_right _ _).trans (ih _)

/-- No unknown directive begins where there are two places left, one for the NUL. -/
def Fits (buflen pos : Nat) (all : List Item) : Prop :=
  ∀ before d after, all = before ++ .unknown d :: after →
    fill buflen pos before + 2 ≠ buflen

theorem Fits.of_full {buflen pos : Nat} (h : buflen ≤ pos + 1) (all : List Item) :
    Fits buflen pos all := by
  intro before d after hsplit
  have hle := le_fill buflen pos before
  omega

theorem fits_cons_iff {buflen pos : Nat} {item : Item} {rest : List Item} :
    Fits buflen pos (item :: rest) ↔
      (item.IsUnknown → pos + 2 ≠ buflen) ∧
        Fits buflen (pos + item.length buflen pos) rest := by
  constructor
  · intro h
    refine ⟨fun hunknown => ?_, fun before d after hsplit => ?_⟩
    · obtain ⟨d, rfl⟩ := hunknown.exists_eq
      exact h [] d rest rfl
    · exact h (item :: before) d after (by rw [hsplit, List.cons_append])
  · rintro ⟨hfirst, hrest⟩ before d after hsplit
    cases before with
    | nil =>
        obtain ⟨rfl, -⟩ := List.cons.inj hsplit
        exact hfirst trivial
    | cons item' before =>
        obtain ⟨rfl, htail⟩ := List.cons.inj hsplit
        exact hrest before d after htail

theorem fits_nil (buflen pos : Nat) : Fits buflen pos [] := by
  intro before d after hsplit
  simp at hsplit

theorem writeItems_pos_iff {buflen : Nat} (all : List Item) {o : Output}
    (h : o.pos < buflen) :
    (writeItems buflen all o).pos < buflen ↔ Fits buflen o.pos all := by
  induction all generalizing o with
  | nil => exact iff_of_true h (fits_nil buflen o.pos)
  | cons item rest ih =>
      rw [writeItems]
      split
      · next hroom =>
        obtain ⟨hunknown, hother⟩ := item.write_pos hroom
        rw [fits_cons_iff]
        by_cases hkind : item.IsUnknown
        · have hpos := hunknown hkind
          have hlength : item.length buflen o.pos = 2 := by
            obtain ⟨d, rfl⟩ := hkind.exists_eq
            rfl
          by_cases hlast : o.pos + 2 = buflen
          · -- the second character takes the place of the NUL, and the loop stops
            refine iff_of_false (fun hlt => ?_) fun hfits => hfits.1 hkind hlast
            cases rest with
            | nil =>
                rw [writeItems] at hlt
                omega
            | cons next rest =>
                rw [writeItems, if_neg (by omega)] at hlt
                omega
          · rw [ih (by omega), hpos, hlength]
            exact ⟨fun hrest => ⟨fun _ => hlast, hrest⟩, fun hfits => hfits.2⟩
        · have hpos := hother hkind
          rw [ih (by omega), hpos]
          have hfirst : item.IsUnknown → o.pos + 2 ≠ buflen :=
            fun hyes => absurd hyes hkind
          by_cases hcut : o.pos + item.length buflen o.pos ≤ buflen - 1
          · rw [Nat.min_eq_left hcut]
            exact ⟨fun hrest => ⟨hfirst, hrest⟩, fun hfits => hfits.2⟩
          · -- the item is cut off, and nothing follows
            exact iff_of_true (.of_full (by omega) rest)
              ⟨hfirst, .of_full (by omega) rest⟩
      · next hfull => exact iff_of_true h (.of_full (by omega) _)

theorem serialVformatImpl_eq (buf : Buf) (buflen : Nat) {fmt : List UInt8}
    {args : List Arg} {all : List Item} (hmatch : items fmt args = some all) :
    serialVformatImpl buf buflen fmt args =
      some (writeItems buflen all ⟨buf, 0, []⟩).terminate := by
  rw [serialVformatImpl, formatLoop_eq buflen hmatch]
  rfl

/-- Every index written lies inside the buffer, and so does a NUL. -/
structure Output.Inside (buflen : Nat) (o : Output) : Prop where
  written : ∀ k ∈ o.written, k < buflen
  terminated : ∃ k < buflen, o.buf k = 0

/--
A call with arguments of matching types stays inside its buffer if and only if no
unknown directive begins where there are two places left, one of them for the NUL.
-/
theorem serialVformatImpl_inside_iff (buf : Buf) {buflen : Nat} (hbuflen : 1 ≤ buflen)
    {fmt : List UInt8} {args : List Arg} {all : List Item}
    (hmatch : items fmt args = some all) :
    ∃ o, serialVformatImpl buf buflen fmt args = some o ∧
      (o.Inside buflen ↔ ∀ before d after, all = before ++ .unknown d :: after →
        fill buflen 0 before + 2 ≠ buflen) := by
  have hstart : (⟨buf, 0, []⟩ : Output).Contiguous := ⟨rfl⟩
  have hwritten := (hstart.writeItems buflen all).written
  have hpos := writeItems_pos_iff all (o := ⟨buf, 0, []⟩) (show 0 < buflen by omega)
  rw [serialVformatImpl_eq buf buflen hmatch]
  generalize writeItems buflen all ⟨buf, 0, []⟩ = o at hwritten hpos
  refine ⟨_, rfl, Iff.trans ⟨fun h => ?_, fun h => ⟨fun k hk => ?_, ?_⟩⟩ hpos⟩
  · exact h.written o.pos (by simp [Output.terminate])
  · simp only [Output.terminate, hwritten, List.mem_append, List.mem_range,
      List.mem_singleton] at hk
    omega
  · exact ⟨o.pos, h, Function.update_self _ _ _⟩

theorem number_inside :
    ∃ o, serialVformatImpl (fun _ => 0) 8 [0x6E, 0x3D, 0x25, 0x64] [.int 7] = some o ∧
      o.Inside 8 := by
  have hmatch : items [0x6E, 0x3D, 0x25, 0x64] [.int 7] =
      some [.put 0x6E, .put 0x3D, .text (signedDigits 7).reverse] := by
    have hn : ∀ fmt, takeDirective 0x6E fmt = (.literal 0x6E, fmt) := fun _ => rfl
    have heq : ∀ fmt, takeDirective 0x3D fmt = (.literal 0x3D, fmt) := fun _ => rfl
    have hd : takeDirective 0x25 [0x64] = (.decimal, []) := rfl
    simp only [items, hn, heq, hd]
    rfl
  obtain ⟨o, hrun, hinside⟩ :=
    serialVformatImpl_inside_iff (fun _ => 0) (show 1 ≤ 8 by decide) hmatch
  refine ⟨o, hrun, hinside.mpr fun before d after hsplit => ?_⟩
  have hmem : Item.unknown d ∈ before ++ .unknown d :: after := by simp
  rw [← hsplit] at hmem
  simp at hmem

/-- `%q` in a buffer of two: the NUL goes to index 2. -/
theorem unknown_directive_outside :
    ¬ ∀ (buf : Buf) (buflen : Nat) (fmt : List UInt8) (args : List Arg), 1 ≤ buflen →
      (items fmt args).isSome →
      ∃ o, serialVformatImpl buf buflen fmt args = some o ∧ o.Inside buflen := by
  intro hclaim
  have hmatch : items [0x25, 0x71] [] = some [.unknown 0x71] := by
    have hq : takeDirective 0x25 [0x71] = (.unknown 0x71, []) := rfl
    simp only [items, hq]
    rfl
  obtain ⟨o, hrun, hinside⟩ := hclaim (fun _ => 0) 2 [0x25, 0x71] [] (by decide)
    (by rw [hmatch]; rfl)
  rw [serialVformatImpl_eq _ 2 hmatch] at hrun
  obtain rfl := Option.some.inj hrun
  exact absurd (hinside.written 2 (by decide)) (by decide)

end EntropyOS.Serial
