import EntropyOS.Foundation.RotatingSum
import EntropyOS.Libexfat.Volume

/-!
# The checksums of exFAT

The sums of `utils.c`.  Both turn before each byte: the one over a set of
directory entries in 16 bits, the one over the boot region in 32.
-/

namespace EntropyOS.Libexfat

open EntropyOS.Foundation

/-! ## Directory entries -/

def addChecksumByte (sum : UInt16) (byte : UInt8) : UInt16 :=
  ((sum <<< 15) ||| (sum >>> 1)) + byte.toUInt16

def addChecksumBytes (sum : UInt16) (buffer : Buf) (n : Nat) : UInt16 :=
  (List.range n).foldl (fun sum i => addChecksumByte sum (buffer i)) sum

def startChecksum (entry : Buf) : UInt16 :=
  (List.range 32).foldl (fun sum i =>
    -- skip the checksum field itself
    if i ≠ 2 ∧ i ≠ 3 then addChecksumByte sum (entry i) else sum) 0

def addChecksum (entry : Buf) (sum : UInt16) : UInt16 :=
  addChecksumBytes sum entry 32

def calcChecksum (entries : Buf) (n : Nat) : UInt16 :=
  (List.range' 1 (n - 1)).foldl (fun sum i =>
    addChecksum (fun k => entries (32 * i + k)) sum) (startChecksum entries)

/-- The bytes of `n` entries that the checksum is about. -/
def summed (n : Nat) : List Nat :=
  (List.range (32 * n)).filter fun k => k ≠ 2 ∧ k ≠ 3

theorem mem_summed {n k : Nat} : k ∈ summed n ↔ k < 32 * n ∧ k ≠ 2 ∧ k ≠ 3 := by
  simp [summed]

theorem addChecksumByte_undoable : Undoable addChecksumByte where
  state byte x y heq := UInt16.toBitVec_inj.mp
    ((RotatingSum.step_undoable (by decide)).state byte.toBitVec (congrArg UInt16.toBitVec heq))
  input sum a b heq := UInt8.toBitVec_inj.mp
    ((RotatingSum.step_undoable (by decide)).input sum.toBitVec (congrArg UInt16.toBitVec heq))

theorem calcChecksum_eq (entries : Buf) {n : Nat} (hn : 0 < n) :
    calcChecksum entries n =
      (summed n).foldl (fun sum k => addChecksumByte sum (entries k)) 0 := by
  have hblocks := foldl_blocks addChecksumByte entries
    (fun k => decide (k ≠ 2 ∧ k ≠ 3)) 32 (by simp; omega) (n - 1) 0
  rw [Nat.sub_add_cancel hn] at hblocks
  simpa [calcChecksum, startChecksum, addChecksum, addChecksumBytes, summed] using hblocks

theorem calcChecksum_ne {entries entries' : Buf} {n k : Nat} (hk : k ∈ summed n)
    (hne : entries k ≠ entries' k)
    (hsame : ∀ j < 32 * n, j ≠ k → entries j = entries' j) :
    calcChecksum entries n ≠ calcChecksum entries' n := by
  have hn : 0 < n := by
    have hlt := (mem_summed.mp hk).1
    omega
  rw [calcChecksum_eq _ hn, calcChecksum_eq _ hn]
  refine addChecksumByte_undoable.foldl_ne (List.nodup_range.filter _) hk hne ?_ 0
  exact fun j hj => hsame j (mem_summed.mp hj).1

theorem calcChecksum_congr {entries entries' : Buf} {n : Nat} (hn : 0 < n)
    (hsame : ∀ k ∈ summed n, entries k = entries' k) :
    calcChecksum entries n = calcChecksum entries' n := by
  rw [calcChecksum_eq _ hn, calcChecksum_eq _ hn]
  exact List.foldl_ext _ _ _ fun sum k hk => by rw [hsame k hk]

/-! ## The boot region -/

/-- The bytes of the boot region that may change while the volume is in use. -/
abbrev VbrSkipped (k : Nat) : Prop := k = 0x6a ∨ k = 0x6b ∨ k = 0x70

def vbrAddByte (sum : UInt32) (byte : UInt8) : UInt32 :=
  ((sum <<< 31) ||| (sum >>> 1)) + byte.toUInt32

def vbrStartChecksum (sector : Buf) (size : Nat) : UInt32 :=
  (List.range size).foldl (fun sum i =>
    -- skip volume_state and allocated_percent fields
    if i ≠ 0x6a ∧ i ≠ 0x6b ∧ i ≠ 0x70 then vbrAddByte sum (sector i) else sum) 0

def vbrAddChecksum (sector : Buf) (size : Nat) (sum : UInt32) : UInt32 :=
  (List.range size).foldl (fun sum i => vbrAddByte sum (sector i)) sum

/-- What the sectors behind the first one add, from sector `i` on. -/
def vbrAddSectors (disk : Buf) (size count i : Nat) (sum : UInt32) : UInt32 :=
  (List.range' i count).foldl (fun sum i =>
    vbrAddChecksum (fun k => disk (size * i + k)) size sum) sum

/-- The checksum of the eleven sectors before the one that holds it. -/
def vbrChecksum (disk : Buf) (size : Nat) : UInt32 :=
  vbrAddSectors disk size 10 1 (vbrStartChecksum disk size)

def vbrSummed (size : Nat) : List Nat :=
  (List.range (size * 11)).filter fun k => ¬ VbrSkipped k

theorem mem_vbrSummed {size k : Nat} :
    k ∈ vbrSummed size ↔ k < size * 11 ∧ ¬ VbrSkipped k := by
  simp [vbrSummed]

theorem vbrAddByte_undoable : Undoable vbrAddByte where
  state byte x y heq := UInt32.toBitVec_inj.mp
    ((RotatingSum.step_undoable (by decide)).state byte.toBitVec (congrArg UInt32.toBitVec heq))
  input sum a b heq := UInt8.toBitVec_inj.mp
    ((RotatingSum.step_undoable (by decide)).input sum.toBitVec (congrArg UInt32.toBitVec heq))

theorem vbrChecksum_eq (disk : Buf) {size : Nat} (hsize : 0x71 ≤ size) :
    vbrChecksum disk size =
      (vbrSummed size).foldl (fun sum k => vbrAddByte sum (disk k)) 0 := by
  have hblocks := foldl_blocks vbrAddByte disk (fun k => decide (¬ VbrSkipped k))
    size (by simp; omega) 10 0
  simpa [vbrChecksum, vbrAddSectors, vbrStartChecksum, vbrAddChecksum, vbrSummed, VbrSkipped,
    not_or] using hblocks

theorem vbrChecksum_ne {disk disk' : Buf} {size k : Nat} (hsize : 0x71 ≤ size)
    (hk : k ∈ vbrSummed size) (hne : disk k ≠ disk' k)
    (hsame : ∀ j, j ≠ k → disk j = disk' j) :
    vbrChecksum disk size ≠ vbrChecksum disk' size := by
  rw [vbrChecksum_eq _ hsize, vbrChecksum_eq _ hsize]
  exact vbrAddByte_undoable.foldl_ne (List.nodup_range.filter _) hk hne
    (fun j _ => hsame j) 0

theorem vbrChecksum_congr {disk disk' : Buf} {size : Nat} (hsize : 0x71 ≤ size)
    (hsame : ∀ k ∈ vbrSummed size, disk k = disk' k) :
    vbrChecksum disk size = vbrChecksum disk' size := by
  rw [vbrChecksum_eq _ hsize, vbrChecksum_eq _ hsize]
  exact List.foldl_ext _ _ _ fun sum k hk => by rw [hsame k hk]

end EntropyOS.Libexfat
