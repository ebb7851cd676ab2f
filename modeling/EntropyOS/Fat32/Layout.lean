import EntropyOS.Foundation.Bytes
import Mathlib.Data.Fintype.Pi

/-!
# FAT32 data structures

Constants, the mounted-volume record and the 32-byte directory entry of
`fat32.h`, and the conversion of a file name to its 8.3 form.
-/

namespace EntropyOS.Fat32

open EntropyOS.Foundation

/-- `FAT32_EOC`: values from here on end a chain. -/
def eoc : Nat := 0x0FFFFFF8

def free : Nat := 0

def attrVolumeId : UInt8 := 0x08
def attrDirectory : UInt8 := 0x10
def attrArchive : UInt8 := 0x20

/-- `fat32_fs_t`. -/
structure Fs where
  fatBeginLba : Nat
  clusterBeginLba : Nat
  sectorsPerCluster : Nat
  rootDirCluster : Nat
  fatSize : Nat
  numFats : Nat
  totalClusters : Nat
  initialized : Bool
  deriving DecidableEq, Repr

/-- The file-scope variables of `fat32.c`. -/
structure Statics where
  fs : Fs
  partitionOffset : Nat
  freeClusters : Nat

/-- The value of `g_free_clusters` while the count is not known. -/
def unknownCount : Nat := 0xFFFFFFFF

abbrev Name := Fin 11 → UInt8

/-- `fat32_dir_entry_t`. -/
@[ext] structure DirEntry where
  name : Name
  attr : UInt8
  ntReserved : UInt8
  createTimeTenth : UInt8
  createTime : UInt16
  createDate : UInt16
  lastAccessDate : UInt16
  firstClusterHi : UInt16
  writeTime : UInt16
  writeDate : UInt16
  firstClusterLo : UInt16
  fileSize : UInt32

namespace DirEntry

def IsEnd (entry : DirEntry) : Prop := entry.name 0 = 0x00

def IsDeleted (entry : DirEntry) : Prop := entry.name 0 = 0xE5

def HasAttr (entry : DirEntry) (bit : UInt8) : Prop := entry.attr &&& bit ≠ 0

instance (entry : DirEntry) : Decidable entry.IsEnd :=
  inferInstanceAs (Decidable (entry.name 0 = 0x00))

instance (entry : DirEntry) : Decidable entry.IsDeleted :=
  inferInstanceAs (Decidable (entry.name 0 = 0xE5))

instance (entry : DirEntry) (bit : UInt8) : Decidable (entry.HasAttr bit) :=
  inferInstanceAs (Decidable (entry.attr &&& bit ≠ 0))

def firstCluster (entry : DirEntry) : Nat :=
  entry.firstClusterHi.toNat * 65536 + entry.firstClusterLo.toNat

theorem firstCluster_lt (entry : DirEntry) : entry.firstCluster < 4294967296 := by
  have hhigh := entry.firstClusterHi.toNat_lt
  have hlow := entry.firstClusterLo.toNat_lt
  simp only [firstCluster]
  omega

/-- The entry the driver writes: cleared, then these four fields set. -/
def make (name : Name) (attr : UInt8) (cluster size : Nat) : DirEntry where
  name := name
  attr := attr
  ntReserved := 0
  createTimeTenth := 0
  createTime := 0
  createDate := 0
  lastAccessDate := 0
  firstClusterHi := UInt16.ofNat (cluster / 65536)
  writeTime := 0
  writeDate := 0
  firstClusterLo := UInt16.ofNat cluster
  fileSize := UInt32.ofNat size

theorem make_firstCluster (name : Name) (attr : UInt8) {cluster : Nat}
    (size : Nat) (h : cluster < 4294967296) :
    (make name attr cluster size).firstCluster = cluster := by
  simp only [make, firstCluster, UInt16.toNat_ofNat']
  omega

def toBytes (entry : DirEntry) : Buf := fun k =>
  if k < 11 then entry.name (Fin.ofNat 11 k)
  else if k < 12 then entry.attr
  else if k < 13 then entry.ntReserved
  else if k < 14 then entry.createTimeTenth
  else if k < 16 then byteOf entry.createTime.toNat (k - 14)
  else if k < 18 then byteOf entry.createDate.toNat (k - 16)
  else if k < 20 then byteOf entry.lastAccessDate.toNat (k - 18)
  else if k < 22 then byteOf entry.firstClusterHi.toNat (k - 20)
  else if k < 24 then byteOf entry.writeTime.toNat (k - 22)
  else if k < 26 then byteOf entry.writeDate.toNat (k - 24)
  else if k < 28 then byteOf entry.firstClusterLo.toNat (k - 26)
  else if k < 32 then byteOf entry.fileSize.toNat (k - 28)
  else 0

def ofBytes (buf : Buf) : DirEntry where
  name := fun i => buf i
  attr := buf 11
  ntReserved := buf 12
  createTimeTenth := buf 13
  createTime := UInt16.ofNat (readLe buf 14 2)
  createDate := UInt16.ofNat (readLe buf 16 2)
  lastAccessDate := UInt16.ofNat (readLe buf 18 2)
  firstClusterHi := UInt16.ofNat (readLe buf 20 2)
  writeTime := UInt16.ofNat (readLe buf 22 2)
  writeDate := UInt16.ofNat (readLe buf 24 2)
  firstClusterLo := UInt16.ofNat (readLe buf 26 2)
  fileSize := UInt32.ofNat (readLe buf 28 4)

theorem ofBytes_congr {buf buf' : Buf} (h : ∀ k < 32, buf k = buf' k) :
    ofBytes buf = ofBytes buf' := by
  have word : ∀ {offset width : Nat}, offset + width ≤ 32 →
      readLe buf offset width = readLe buf' offset width :=
    fun hfit => readLe_congr fun i hi => h _ (by omega)
  have name : (fun i : Fin 11 => buf i) = fun i : Fin 11 => buf' i :=
    funext fun i => h _ (by omega)
  simp only [ofBytes, name, h 11 (by omega), h 12 (by omega), h 13 (by omega)]
  repeat rw [word (by omega)]

theorem ofBytes_toBytes (entry : DirEntry) : ofBytes entry.toBytes = entry := by
  have half : ∀ {offset : Nat} {value : UInt16},
      (∀ i < 2, entry.toBytes (offset + i) = byteOf value.toNat i) →
      UInt16.ofNat (readLe entry.toBytes offset 2) = value := by
    intro offset value h
    rw [readLe_of_bytes h]
    apply UInt16.toNat.inj
    simp
  ext1
  case name =>
    funext i
    change entry.toBytes i = _
    fin_cases i <;> rfl
  case attr | ntReserved | createTimeTenth => rfl
  case fileSize =>
    change UInt32.ofNat (readLe entry.toBytes 28 4) = _
    have h : ∀ i < 4, entry.toBytes (28 + i) = byteOf entry.fileSize.toNat i := by
      intro i hi
      interval_cases i <;> rfl
    rw [readLe_of_bytes h]
    apply UInt32.toNat.inj
    simp
  all_goals
    refine half fun i hi => ?_
    interval_cases i <;> rfl

end DirEntry

/-! ## Entries of a directory cluster -/

def entryAt (buf : Buf) (index : Nat) : DirEntry :=
  .ofBytes fun k => buf (32 * index + k)

def setEntry (buf : Buf) (index : Nat) (entry : DirEntry) : Buf := fun k =>
  if 32 * index ≤ k ∧ k < 32 * index + 32 then entry.toBytes (k - 32 * index)
  else buf k

/-- The buffer after `entries[index].name[0] = 0xE5`. -/
def markDeleted (buf : Buf) (index : Nat) : Buf := fun k =>
  if k = 32 * index then 0xE5 else buf k

theorem entryAt_setEntry_self (buf : Buf) (index : Nat) (entry : DirEntry) :
    entryAt (setEntry buf index entry) index = entry := by
  calc entryAt (setEntry buf index entry) index
      = .ofBytes entry.toBytes := DirEntry.ofBytes_congr fun k hk => by
          have hin : 32 * index ≤ 32 * index + k ∧
              32 * index + k < 32 * index + 32 := by omega
          simp only [setEntry, if_pos hin, Nat.add_sub_cancel_left]
    _ = entry := entry.ofBytes_toBytes

theorem entryAt_setEntry_ne (buf : Buf) {index other : Nat}
    (entry : DirEntry) (h : other ≠ index) :
    entryAt (setEntry buf index entry) other = entryAt buf other := by
  refine DirEntry.ofBytes_congr fun k hk => ?_
  have hout : ¬ (32 * index ≤ 32 * other + k ∧
      32 * other + k < 32 * index + 32) := by omega
  simp only [setEntry, if_neg hout]

theorem entryAt_markDeleted_self (buf : Buf) (index : Nat) :
    (entryAt (markDeleted buf index) index).IsDeleted := by
  simp [DirEntry.IsDeleted, entryAt, DirEntry.ofBytes, markDeleted]

theorem entryAt_markDeleted_ne (buf : Buf) {index other : Nat}
    (h : other ≠ index) :
    entryAt (markDeleted buf index) other = entryAt buf other := by
  refine DirEntry.ofBytes_congr fun k hk => ?_
  have hout : 32 * other + k ≠ 32 * index := by omega
  simp only [markDeleted, if_neg hout]

theorem entryAt_clip (buf : Buf) {size index : Nat}
    (h : 32 * index + 32 ≤ size) :
    entryAt (buf.clip size) index = entryAt buf index :=
  DirEntry.ofBytes_congr fun k hk => buf.clip_apply (by omega)

/-! ## File names -/

def upcase (c : UInt8) : UInt8 :=
  if 0x61 ≤ c ∧ c ≤ 0x7A then c - 32 else c

/-- The base loop of `name_to_fat`: the bytes stored, and what is left. -/
def nameBase : List UInt8 → Nat → List UInt8 × List UInt8
  | [], _ => ([], [])
  | c :: rest, 0 => ([], c :: rest)
  | c :: rest, room + 1 =>
      if c = 0 ∨ c = 0x2E then ([], c :: rest)
      else
        let (stored, left) := nameBase rest room
        (upcase c :: stored, left)

def nameExtension : List UInt8 → Nat → List UInt8
  | [], _ => []
  | _ :: _, 0 => []
  | c :: rest, room + 1 =>
      if c = 0 then [] else upcase c :: nameExtension rest room

/-- `name_to_fat`.  A C string is the list of its bytes before the NUL. -/
def nameToFat (name : List UInt8) : Name :=
  let (base, left) := nameBase name 8
  let extension :=
    match left with
    | [] => []
    | c :: rest => if c = 0x2E then nameExtension rest 3 else []
  fun k => if k < 8 then base.getD k 0x20 else extension.getD (k - 8) 0x20

def dotName : Name :=
  ![0x2E, 0x20, 0x20, 0x20, 0x20, 0x20, 0x20, 0x20, 0x20, 0x20, 0x20]

def dotDotName : Name :=
  ![0x2E, 0x2E, 0x20, 0x20, 0x20, 0x20, 0x20, 0x20, 0x20, 0x20, 0x20]

def Ascii (name : List UInt8) : Prop := ∀ c ∈ name, c < 0x80

theorem nameToFat_zero (name : List UInt8) :
    nameToFat name 0 = 0x20 ∨
      ∃ c ∈ name, c ≠ 0 ∧ c ≠ 0x2E ∧ nameToFat name 0 = upcase c := by
  cases name with
  | nil => exact .inl rfl
  | cons c rest =>
      by_cases hstop : c = 0 ∨ c = 0x2E
      · left
        simp [nameToFat, nameBase, hstop]
      · right
        refine ⟨c, by simp, fun h => hstop (.inl h), fun h => hstop (.inr h), ?_⟩
        simp [nameToFat, nameBase, hstop]

private theorem upcase_ordinary {c : UInt8} (hascii : c < 0x80) (hzero : c ≠ 0)
    (hdot : c ≠ 0x2E) :
    upcase c ≠ 0 ∧ upcase c ≠ 0xE5 ∧ upcase c ≠ 0x2E := by
  unfold upcase
  split <;> grind

theorem nameToFat_zero_ne_dot (name : List UInt8) : nameToFat name 0 ≠ 0x2E := by
  rcases nameToFat_zero name with hspace | ⟨c, -, -, hdot, hc⟩
  · rw [hspace]
    decide
  · rw [hc]
    unfold upcase
    split <;> grind

/-- An ASCII name never looks like an end mark, a deleted entry or a dot. -/
theorem nameToFat_ordinary {name : List UInt8} (h : Ascii name) :
    nameToFat name 0 ≠ 0 ∧ nameToFat name 0 ≠ 0xE5 ∧
      nameToFat name 0 ≠ 0x2E := by
  rcases nameToFat_zero name with hspace | ⟨c, hmem, hzero, hdot, hc⟩
  · rw [hspace]
    decide
  · rw [hc]
    exact upcase_ordinary (h c hmem) hzero hdot

end EntropyOS.Fat32
