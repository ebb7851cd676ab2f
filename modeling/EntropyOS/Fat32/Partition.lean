import EntropyOS.Fat32.Files

/-!
# The sectors of a partition

On a fault-free device the driver works on the sectors of its partition and on
its own variables.  The theorems of this file say what each function that
moves sectors does to them.
-/

namespace EntropyOS.Fat32

open EntropyOS.Foundation

structure Partition where
  statics : Statics
  sectors : Nat → Sector

def volumeSector (s : System) (lba : Nat) : Sector :=
  s.device.sectors (u64 (s.fat32.partitionOffset + lba))

structure Shows (s : System) (part : Partition) : Prop where
  faultFree : s.device.FaultFree
  statics : s.fat32 = part.statics
  sectors : ∀ lba < 4294967296, volumeSector s lba = part.sectors lba

/-- The program acts on partitions of fault-free devices as stated. -/
abbrev Moves {α : Type} (part : Partition) (program : Program System α) (a : α)
    (part' : Partition) : Prop :=
  Runs Shows part program a part'

namespace Partition

def put (part : Partition) (lba : Nat) (sector : Sector) : Partition :=
  { part with sectors := Function.update part.sectors lba sector }

/-- Sectors `lba` to `lba + count - 1` replaced by those of `f`. -/
def putAll (part : Partition) (lba count : Nat) (f : Nat → Sector) : Partition :=
  { part with sectors := fun k =>
      if lba ≤ k ∧ k < lba + count then f (k - lba) else part.sectors k }

def withStatics (part : Partition) (f : Statics → Statics) : Partition :=
  { part with statics := f part.statics }

theorem putAll_zero (part : Partition) (lba : Nat) (f : Nat → Sector) :
    part.putAll lba 0 f = part := by
  simp only [putAll]
  congr 1
  funext k
  rw [if_neg (by omega)]

theorem putAll_succ (part : Partition) (lba count : Nat) (f : Nat → Sector) :
    part.putAll lba (count + 1) f =
      (part.put lba (f 0)).putAll (lba + 1) count fun k => f (k + 1) := by
  simp only [putAll, put, Partition.mk.injEq, true_and]
  funext k
  by_cases hfirst : k = lba
  · simp [hfirst]
  · rw [Function.update_of_ne hfirst]
    by_cases hin : lba ≤ k ∧ k < lba + (count + 1)
    · rw [if_pos hin, if_pos (by omega),
        show k - lba = k - (lba + 1) + 1 by omega]
    · rw [if_neg hin, if_neg (by omega)]

end Partition

/-! ## One sector -/

theorem volumeSector_put (s : System) {lba other : Nat} (sector : Sector)
    (hlba : lba < 4294967296) (hother : other < 4294967296) :
    volumeSector (s.put (u64 (s.fat32.partitionOffset + lba)) sector) other =
      if other = lba then sector else volumeSector s other := by
  simp only [volumeSector, System.put_fat32, System.put_sectors]
  split
  · next h =>
      rw [h, Function.update_self]
  · next h =>
      apply Function.update_of_ne
      intro heq
      exact h (u64_add_inj (by omega) (by omega) heq)

theorem readSector_moves (part : Partition) {lba : Nat} (h : lba < 4294967296) :
    Moves part (readSector lba) (some (part.sectors lba)) part := by
  apply Runs.of_reads
  intro s hs
  rw [← hs.sectors lba h]
  exact blockReadSector_eq hs.faultFree _

theorem writeSector_moves (part : Partition) {lba : Nat} (sector : Sector)
    (h : lba < 4294967296) :
    Moves part (writeSector lba sector) 0 (part.put lba sector) := by
  intro s hs
  refine ⟨_, blockWriteSector_eq hs.faultFree _ _, hs.faultFree.put _ _,
    hs.statics, ?_⟩
  intro other hother
  rw [volumeSector_put s sector h hother, hs.sectors other hother]
  simp only [Partition.put, Function.update_apply]

theorem getFs_moves (part : Partition) :
    Moves part getFs part.statics.fs part := by
  apply Runs.of_reads
  intro s hs
  rw [← hs.statics]
  rfl

theorem text_moves (part : Partition) (message : String) :
    Moves part (text message) () part := by
  intro s hs
  exact ⟨_, rfl, hs.faultFree, hs.statics, hs.sectors⟩

theorem flushIfSata_moves (part : Partition) (warning : String) :
    Moves part (flushIfSata warning) () part :=
  Runs.of_reads fun _ hs => flushIfSata_eq hs.faultFree warning

theorem blockIsPresent_moves (part : Partition) :
    Moves part blockIsPresent true part :=
  Runs.of_reads fun _ hs => blockIsPresent_eq hs.faultFree

/-- Variables change freely as long as the partition stays where it is. -/
theorem modifyFat32_moves (part : Partition) {f : Statics → Statics}
    (h : (f part.statics).partitionOffset = part.statics.partitionOffset) :
    Moves part (modifyFat32 f) () (part.withStatics f) := by
  intro s hs
  refine ⟨{ s with fat32 := f s.fat32 }, rfl, hs.faultFree, ?_, ?_⟩
  · simp only [hs.statics, Partition.withStatics]
  · intro lba hlba
    simp only [volumeSector, hs.statics, h, Partition.withStatics]
    rw [← hs.sectors lba hlba, volumeSector, hs.statics]

/-! ## Runs of sectors -/

/-- The buffer after `total` bytes of the first `count` pieces are copied. -/
def copyPieces (size : Nat) (piece : Nat → Buf) (count total offset : Nat)
    (out : Buf) : Buf := fun k =>
  if offset ≤ k ∧ k < offset + min total (count * size) then
    piece ((k - offset) / size) ((k - offset) % size)
  else out k

theorem copyPieces_none (size : Nat) (piece : Nat → Buf) (total offset : Nat)
    (out : Buf) : copyPieces size piece 0 total offset out = out := by
  funext k
  rw [copyPieces, if_neg (by omega)]

theorem copyPieces_congr {size count : Nat} {piece piece' : Nat → Buf}
    (h : ∀ j < count, piece j = piece' j) (total offset : Nat) (out : Buf) :
    copyPieces size piece count total offset out =
      copyPieces size piece' count total offset out := by
  funext k
  simp only [copyPieces]
  split
  · next hin =>
      have hindex : (k - offset) / size < count :=
        Nat.div_lt_of_lt_mul (by rw [Nat.mul_comm]; omega)
      rw [h _ hindex]
  · rfl

theorem copyPieces_succ {size : Nat} (hsize : 0 < size) (piece : Nat → Buf)
    (count total offset : Nat) (out : Buf) :
    copyPieces size piece (count + 1) total offset out =
      copyPieces size (fun j => piece (j + 1)) count (total - min total size)
        (offset + min total size)
        (copyInto out offset (piece 0) (min total size)) := by
  funext k
  simp only [copyPieces, copyInto, Nat.succ_mul]
  by_cases hfirst : offset ≤ k ∧ k < offset + min total size
  · rw [if_pos (by omega), if_neg (by omega), if_pos hfirst,
      Nat.div_eq_of_lt (by omega), Nat.mod_eq_of_lt (by omega)]
  · by_cases hin : offset ≤ k ∧ k < offset + min total (count * size + size)
    · have hk : k - offset = k - (offset + min total size) + size := by omega
      rw [if_pos hin, if_pos (by omega), hk, Nat.add_div_right _ hsize,
        Nat.add_mod_right]
    · rw [if_neg hin, if_neg (by omega), if_neg hfirst]

theorem putSector_overlay (f : Nat → Sector) (buf : Buf) (i count : Nat) :
    (fun k => if 512 * (i + 1) ≤ k ∧ k < 512 * (i + 1 + count) then
        (f (k / 512)).toBuf (k % 512)
      else putSector buf i (f i) k) =
      fun k => if 512 * i ≤ k ∧ k < 512 * (i + (count + 1)) then
        (f (k / 512)).toBuf (k % 512) else buf k := by
  funext k
  by_cases hfirst : 512 * i ≤ k ∧ k < 512 * i + 512
  · rw [if_neg (by omega), if_pos (by omega), putSector, if_pos hfirst,
      show k / 512 = i by omega, show k - 512 * i = k % 512 by omega]
  · rw [putSector, if_neg hfirst]
    by_cases hin : 512 * i ≤ k ∧ k < 512 * (i + (count + 1))
    · rw [if_pos hin, if_pos (by omega)]
    · rw [if_neg hin, if_neg (by omega)]

theorem putSector_none (f : Nat → Sector) (buf : Buf) (i : Nat) :
    (fun k => if 512 * i ≤ k ∧ k < 512 * (i + 0) then
      (f (k / 512)).toBuf (k % 512) else buf k) = buf := by
  funext k
  rw [if_neg (by omega)]

theorem readSectors_moves (part : Partition) (lba count i : Nat)
    (buf : Buf) (h : lba + i + count ≤ 4294967296) :
    Moves part (readSectors lba count i buf) (some fun k =>
      if 512 * i ≤ k ∧ k < 512 * (i + count) then
        (part.sectors (lba + k / 512)).toBuf (k % 512)
      else buf k) part := by
  induction count generalizing i buf with
  | zero =>
      rw [putSector_none fun k => part.sectors (lba + k)]
      exact Runs.pure _ _
  | succ count ih =>
      refine Runs.bind (readSector_moves part (by omega)) ?_
      have hrest := ih (i + 1) (putSector buf i (part.sectors (lba + i)))
        (by omega)
      have hbuf := putSector_overlay (fun k => part.sectors (lba + k)) buf i count
      rw [hbuf] at hrest
      exact hrest

theorem writeSectors_moves (part : Partition) (lba : Nat) (buf : Buf)
    (count i : Nat) (h : lba + i + count ≤ 4294967296) :
    Moves part (writeSectors lba buf count i) 0
      (part.putAll (lba + i) count fun j =>
        Sector.ofBuf fun k => buf (512 * (i + j) + k)) := by
  induction count generalizing part i with
  | zero =>
      rw [Partition.putAll_zero]
      exact Runs.pure _ _
  | succ count ih =>
      rw [Partition.putAll_succ]
      refine Runs.bind (writeSector_moves part _ (by omega)) ?_
      have hrest := ih (part.put (lba + i)
        (Sector.ofBuf fun k => buf (512 * i + k))) (i + 1) (by omega)
      simp only [show ∀ j, i + 1 + j = i + (j + 1) by omega] at hrest
      exact Runs.if_neg (by decide) hrest

theorem clearSectors_moves (part : Partition) (message : String)
    (lba count j : Nat) (h : lba + j + count ≤ 4294967296) :
    Moves part (clearSectors message lba count j) 0
      (part.putAll (lba + j) count fun _ => Sector.zero) := by
  induction count generalizing part j with
  | zero =>
      rw [Partition.putAll_zero]
      exact Runs.pure _ _
  | succ count ih =>
      rw [Partition.putAll_succ]
      refine Runs.bind (writeSector_moves part _ (by omega)) ?_
      exact Runs.if_neg (by decide)
        (ih (part.put (lba + j) Sector.zero) (j + 1) (by omega))

end EntropyOS.Fat32
