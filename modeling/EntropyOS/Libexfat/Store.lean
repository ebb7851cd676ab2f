import EntropyOS.Libexfat.Transfers

/-!
# A store of files

What the files of a volume are for those who read and write them: lists of
bytes, and a number of free clusters that bounds how long they can become.
-/

namespace EntropyOS.Libexfat

open EntropyOS.Foundation

/-- A file: its bytes, and how many of them count as written. -/
structure Text where
  bytes : List UInt8
  valid : Nat
  deriving DecidableEq

namespace Text

/-- The file with another length, cut or filled with zeros. -/
def resize (size valid : Nat) (t : Text) : Text :=
  ⟨t.bytes.take size ++ List.replicate (size - t.bytes.length) 0, valid⟩

/-- The valid size once the file reaches up to `offset`. -/
def validTo (offset : Nat) (t : Text) : Nat :=
  if t.bytes.length < offset then offset else t.valid

/-- The file with `data` at `offset`; between its old end and there are zeros. -/
def put (offset : Nat) (data : List UInt8) (t : Text) : Text :=
  ⟨(t.resize offset t.valid).bytes ++ data ++ t.bytes.drop (offset + data.length),
    max (t.validTo offset) (if data = [] then 0 else offset + data.length)⟩

def slice (offset size : Nat) (t : Text) : List UInt8 :=
  (t.bytes.drop offset).take size

section Bytes

variable (t : Text) (k : Nat)

@[simp] theorem length_resize (size valid : Nat) :
    (t.resize size valid).bytes.length = size := by
  simp [resize]
  omega

theorem getD_resize (size valid : Nat) :
    (t.resize size valid).bytes.getD k 0 = if k < size then t.bytes.getD k 0 else 0 := by
  simp only [resize, List.getD_eq_getElem?_getD, List.getElem?_append, List.length_take,
    List.getElem?_take, List.getElem?_replicate]
  by_cases hkept : k < min size t.bytes.length
  · simp [hkept, show k < size by omega]
  · have hzero : (if k - min size t.bytes.length < size - t.bytes.length then
        some (0 : UInt8) else none).getD 0 = 0 := by
      split <;> rfl
    rw [if_neg hkept, hzero]
    split
    · rw [List.getElem?_eq_none (by omega), Option.getD_none]
    · rfl

@[simp] theorem resize_self : t.resize t.bytes.length t.valid = t := by
  simp [resize]

@[simp] theorem length_put (offset : Nat) (data : List UInt8) :
    (t.put offset data).bytes.length = max t.bytes.length (offset + data.length) := by
  simp [put]
  omega

/-- The bytes of `data` are in their place, and all others where they were. -/
theorem getD_put (offset : Nat) (data : List UInt8) :
    (t.put offset data).bytes.getD k 0 =
      if offset ≤ k ∧ k < offset + data.length then data.getD (k - offset) 0
      else t.bytes.getD k 0 := by
  have hresize := t.getD_resize k offset t.valid
  simp only [put, List.getD_eq_getElem?_getD, List.getElem?_append, List.length_append,
    length_resize, List.getElem?_drop] at hresize ⊢
  by_cases hbefore : k < offset
  · rw [if_pos (by omega), if_pos hbefore, if_neg (by omega), hresize, if_pos hbefore]
  · by_cases hin : k < offset + data.length
    · rw [if_pos hin, if_neg hbefore, if_pos (by omega)]
    · rw [if_neg hin, if_neg (by omega), Nat.add_sub_cancel' (by omega)]

end Bytes

end Text

structure Store where
  clusterSize : Nat
  free : Nat
  text : Nat → Text

namespace Store

variable (d : Store)

def clustersFor (size : Nat) : Nat :=
  (size + (d.clusterSize - 1)) / d.clusterSize

/-- There are clusters enough for the file to become `size` bytes long. -/
def Fits (n size : Nat) : Prop :=
  d.clustersFor size ≤ d.clustersFor (d.text n).bytes.length + d.free

instance (n size : Nat) : Decidable (d.Fits n size) :=
  inferInstanceAs (Decidable (_ ≤ _))

def set (n : Nat) (t : Text) : Store :=
  { d with
    free := d.free + d.clustersFor (d.text n).bytes.length - d.clustersFor t.bytes.length
    text := Function.update d.text n t }

end Store

/-! ## Calls -/

inductive Call where
  | truncate (n size : Nat) (erase : Bool)
  | write (n : Nat) (data : List UInt8) (offset : Nat)
  | read (n size offset : Nat)

abbrev Answer := Int × List UInt8

namespace Call

def node : Call → Nat
  | truncate n _ _ => n
  | write n _ _ => n
  | read n _ _ => n

def run : Call → Program Volume Answer
  | truncate n size erase => do
      return (← Libexfat.truncate n size erase, [])
  | write n data offset => do
      return (← genericPwrite n (Buf.ofList data) data.length offset, [])
  | read n size offset => do
      let (r, buffer) ← genericPread n (fun _ => 0) size offset
      return (r, (List.range r.toNat).map buffer)

def apply (d : Store) : Call → Answer × Store
  | truncate n size erase =>
      let t := d.text n
      if t.bytes.length = size then
        ((0, []), d)
      else if d.Fits n size then
        ((0, []), d.set n (t.resize size (if erase then size else min t.valid size)))
      else
        ((-enospc, []), d)
  | write n data offset =>
      let t := d.text n
      if d.Fits n (offset + data.length) then
        ((data.length, []), d.set n (t.put offset data))
      else if t.bytes.length < offset ∧ d.Fits n offset then
        ((-enospc, []), d.set n (t.resize offset offset))
      else
        ((-enospc, []), d)
  | read n size offset =>
      let bytes := (d.text n).slice offset size
      ((bytes.length, bytes), d)

/--
What is asked of a call: the sizes are in range, and a write starts in the part
that was written before, or behind the end of the file.
-/
def Proper (d : Store) : Call → Prop
  | truncate _ size _ => size ≤ 0xffffffff * d.clusterSize
  | write n data offset =>
      offset + data.length ≤ 0xffffffff * d.clusterSize ∧
        (offset ≤ (d.text n).valid ∨ (d.text n).bytes.length < offset)
  | read _ size offset => offset + size < 18446744073709551616

instance (d : Store) : (call : Call) → Decidable (call.Proper d)
  | truncate .. => inferInstanceAs (Decidable (_ ≤ _))
  | write .. => inferInstanceAs (Decidable (_ ∧ _))
  | read .. => inferInstanceAs (Decidable (_ < _))

end Call

end EntropyOS.Libexfat
