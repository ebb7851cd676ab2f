import EntropyOS.Foundation.Bytes

/-!
# GPT data structures

The packed structures of `gpt.h`, with their byte images.  `toBytes` is the
memory of the structure and `ofBytes` is the copy out of a sector buffer, so
loading what was stored is `ofBytes_toBytes`.
-/

namespace EntropyOS.Gpt

open EntropyOS.Foundation

abbrev Guid := Fin 16 → UInt8

/-- The test `memcmp(guid, zero_guid, 16) == 0`. -/
def Guid.IsZero (guid : Guid) : Prop := ∀ i, guid i = 0

instance (guid : Guid) : Decidable guid.IsZero :=
  inferInstanceAs (Decidable (∀ i, guid i = 0))

def maxPartitions : Nat := 128

def efiSystemType : Guid :=
  ![0x28, 0x73, 0x2A, 0xC1, 0x1F, 0xF8, 0xD2, 0x11,
    0xBA, 0x4B, 0x00, 0xA0, 0xC9, 0x3E, 0xC9, 0x3B]

def microsoftBasicDataType : Guid :=
  ![0xA2, 0xA0, 0xD0, 0xEB, 0xE5, 0xB9, 0x33, 0x44,
    0x87, 0xC0, 0x68, 0xB6, 0xB7, 0x26, 0x99, 0xC7]

theorem efiSystemType_not_zero : ¬ efiSystemType.IsZero := by decide

theorem microsoftBasicDataType_not_zero :
    ¬ microsoftBasicDataType.IsZero := by decide

/-- `gpt_header_t`, 92 bytes. -/
@[ext] structure Header where
  signature : Fin 8 → UInt8
  revision : UInt32
  headerSize : UInt32
  headerCrc32 : UInt32
  reserved : UInt32
  currentLba : UInt64
  backupLba : UInt64
  firstUsableLba : UInt64
  lastUsableLba : UInt64
  diskGuid : Guid
  partitionEntriesLba : UInt64
  numPartitionEntries : UInt32
  partitionEntrySize : UInt32
  partitionArrayCrc32 : UInt32

/-- `gpt_partition_entry_t`, 128 bytes. -/
@[ext] structure Entry where
  typeGuid : Guid
  partitionGuid : Guid
  firstLba : UInt64
  lastLba : UInt64
  attributes : UInt64
  name : Fin 36 → UInt16

/-- `gpt_partition_info_t`. -/
structure PartitionInfo where
  typeGuid : Guid
  partitionGuid : Guid
  firstLba : UInt64
  lastLba : UInt64
  attributes : UInt64
  name : Fin 73 → UInt8
  valid : UInt8

def signatureBytes : Fin 8 → UInt8 :=
  ![0x45, 0x46, 0x49, 0x20, 0x50, 0x41, 0x52, 0x54]

def gptRevision : UInt32 := 0x00010000

def Header.zero : Header where
  signature := fun _ => 0
  revision := 0
  headerSize := 0
  headerCrc32 := 0
  reserved := 0
  currentLba := 0
  backupLba := 0
  firstUsableLba := 0
  lastUsableLba := 0
  diskGuid := fun _ => 0
  partitionEntriesLba := 0
  numPartitionEntries := 0
  partitionEntrySize := 0
  partitionArrayCrc32 := 0

def Entry.zero : Entry where
  typeGuid := fun _ => 0
  partitionGuid := fun _ => 0
  firstLba := 0
  lastLba := 0
  attributes := 0
  name := fun _ => 0

def Header.toBytes (header : Header) : Buf := fun k =>
  if k < 8 then header.signature (Fin.ofNat 8 k)
  else if k < 12 then byteOf header.revision.toNat (k - 8)
  else if k < 16 then byteOf header.headerSize.toNat (k - 12)
  else if k < 20 then byteOf header.headerCrc32.toNat (k - 16)
  else if k < 24 then byteOf header.reserved.toNat (k - 20)
  else if k < 32 then byteOf header.currentLba.toNat (k - 24)
  else if k < 40 then byteOf header.backupLba.toNat (k - 32)
  else if k < 48 then byteOf header.firstUsableLba.toNat (k - 40)
  else if k < 56 then byteOf header.lastUsableLba.toNat (k - 48)
  else if k < 72 then header.diskGuid (Fin.ofNat 16 (k - 56))
  else if k < 80 then byteOf header.partitionEntriesLba.toNat (k - 72)
  else if k < 84 then byteOf header.numPartitionEntries.toNat (k - 80)
  else if k < 88 then byteOf header.partitionEntrySize.toNat (k - 84)
  else if k < 92 then byteOf header.partitionArrayCrc32.toNat (k - 88)
  else 0

def Header.ofBytes (buf : Buf) : Header where
  signature := fun i => buf i
  revision := UInt32.ofNat (readLe buf 8 4)
  headerSize := UInt32.ofNat (readLe buf 12 4)
  headerCrc32 := UInt32.ofNat (readLe buf 16 4)
  reserved := UInt32.ofNat (readLe buf 20 4)
  currentLba := UInt64.ofNat (readLe buf 24 8)
  backupLba := UInt64.ofNat (readLe buf 32 8)
  firstUsableLba := UInt64.ofNat (readLe buf 40 8)
  lastUsableLba := UInt64.ofNat (readLe buf 48 8)
  diskGuid := fun i => buf (56 + i)
  partitionEntriesLba := UInt64.ofNat (readLe buf 72 8)
  numPartitionEntries := UInt32.ofNat (readLe buf 80 4)
  partitionEntrySize := UInt32.ofNat (readLe buf 84 4)
  partitionArrayCrc32 := UInt32.ofNat (readLe buf 88 4)

def Entry.toBytes (entry : Entry) : Buf := fun k =>
  if k < 16 then entry.typeGuid (Fin.ofNat 16 k)
  else if k < 32 then entry.partitionGuid (Fin.ofNat 16 (k - 16))
  else if k < 40 then byteOf entry.firstLba.toNat (k - 32)
  else if k < 48 then byteOf entry.lastLba.toNat (k - 40)
  else if k < 56 then byteOf entry.attributes.toNat (k - 48)
  else if k < 128 then
    byteOf (entry.name (Fin.ofNat 36 ((k - 56) / 2))).toNat ((k - 56) % 2)
  else 0

def Entry.ofBytes (buf : Buf) : Entry where
  typeGuid := fun i => buf i
  partitionGuid := fun i => buf (16 + i)
  firstLba := UInt64.ofNat (readLe buf 32 8)
  lastLba := UInt64.ofNat (readLe buf 40 8)
  attributes := UInt64.ofNat (readLe buf 48 8)
  name := fun i => UInt16.ofNat (readLe buf (56 + 2 * i) 2)

/-! ## Loading what was stored -/

private theorem ofNat_readLe_u32 {buf : Buf} {offset : Nat} {value : UInt32}
    (h : ∀ i < 4, buf (offset + i) = byteOf value.toNat i) :
    UInt32.ofNat (readLe buf offset 4) = value := by
  rw [readLe_of_bytes h]
  apply UInt32.toNat.inj
  simp

private theorem ofNat_readLe_u64 {buf : Buf} {offset : Nat} {value : UInt64}
    (h : ∀ i < 8, buf (offset + i) = byteOf value.toNat i) :
    UInt64.ofNat (readLe buf offset 8) = value := by
  rw [readLe_of_bytes h]
  apply UInt64.toNat.inj
  simp

private theorem ofNat_readLe_u16 {buf : Buf} {offset : Nat} {value : UInt16}
    (h : ∀ i < 2, buf (offset + i) = byteOf value.toNat i) :
    UInt16.ofNat (readLe buf offset 2) = value := by
  rw [readLe_of_bytes h]
  apply UInt16.toNat.inj
  simp

theorem Header.ofBytes_of_agree {buf : Buf} {header : Header}
    (h : ∀ k < 92, buf k = header.toBytes k) :
    Header.ofBytes buf = header := by
  have field : ∀ {offset width value : Nat}, offset + width ≤ 92 →
      (∀ i < width, header.toBytes (offset + i) = byteOf value i) →
      ∀ i < width, buf (offset + i) = byteOf value i := by
    intro offset width value hfit hbytes i hi
    rw [h _ (by omega), hbytes i hi]
  ext1
  case signature =>
    funext i
    change buf i = _
    rw [h _ (by omega)]
    fin_cases i <;> rfl
  case diskGuid =>
    funext i
    change buf (56 + i) = _
    rw [h _ (by omega)]
    fin_cases i <;> rfl
  case currentLba | backupLba | firstUsableLba | lastUsableLba |
      partitionEntriesLba =>
    refine ofNat_readLe_u64 (field (by omega) ?_)
    intro i hi
    interval_cases i <;> rfl
  all_goals
    refine ofNat_readLe_u32 (field (by omega) ?_)
    intro i hi
    interval_cases i <;> rfl

theorem Entry.toBytes_name (entry : Entry) (i : Fin 36) (j : Nat)
    (hj : j < 2) :
    entry.toBytes (56 + 2 * i + j) = byteOf (entry.name i).toNat j := by
  have hindex : (56 + 2 * i + j - 56) / 2 = (i : Nat) := by omega
  have hbyte : (56 + 2 * i + j - 56) % 2 = j := by omega
  have hcast : Fin.ofNat 36 (i : Nat) = i := Fin.ofNat_val_eq_self i
  simp only [Entry.toBytes, hindex, hbyte, hcast]
  repeat rw [if_neg (by omega)]
  rw [if_pos (by omega)]

theorem Entry.ofBytes_of_agree {buf : Buf} {entry : Entry}
    (h : ∀ k < 128, buf k = entry.toBytes k) :
    Entry.ofBytes buf = entry := by
  ext1
  case typeGuid =>
    funext i
    change buf i = _
    rw [h _ (by omega)]
    fin_cases i <;> rfl
  case partitionGuid =>
    funext i
    change buf (16 + i) = _
    rw [h _ (by omega)]
    fin_cases i <;> rfl
  case name =>
    funext i
    refine ofNat_readLe_u16 fun j hj => ?_
    rw [h _ (by omega), Entry.toBytes_name entry i j hj]
  all_goals
    refine ofNat_readLe_u64 fun i hi => ?_
    rw [h _ (by omega)]
    interval_cases i <;> rfl

theorem Entry.ofBytes_toBytes (buf : Buf) {k : Nat} (hk : k < 128) :
    (Entry.ofBytes buf).toBytes k = buf k := by
  have word : ∀ {offset : Nat}, offset ≤ k → k < offset + 8 →
      byteOf (UInt64.ofNat (readLe buf offset 8)).toNat (k - offset) = buf k := by
    intro offset hlow hhigh
    have hlt : readLe buf offset 8 < 2 ^ 64 := readLe_lt buf offset 8
    rw [UInt64.toNat_ofNat', Nat.mod_eq_of_lt hlt, byteOf_readLe _ _ (by omega)]
    exact congrArg buf (by omega)
  unfold Entry.toBytes Entry.ofBytes
  dsimp only
  split_ifs with htype hguid hfirst hlast hattributes
  · exact congrArg buf (by simp only [Fin.ofNat]; omega)
  · exact congrArg buf (by simp only [Fin.ofNat]; omega)
  · exact word (by omega) (by omega)
  · exact word (by omega) (by omega)
  · exact word (by omega) (by omega)
  · have hunit : ((Fin.ofNat 36 ((k - 56) / 2) : Fin 36) : Nat) = (k - 56) / 2 := by
      simp only [Fin.ofNat]
      omega
    have hlt : readLe buf (56 + 2 * ((k - 56) / 2)) 2 < 2 ^ 16 :=
      readLe_lt buf _ 2
    rw [hunit, UInt16.toNat_ofNat', Nat.mod_eq_of_lt hlt,
      byteOf_readLe _ _ (by omega)]
    exact congrArg buf (by omega)

@[simp] theorem Entry.zero_toBytes (k : Nat) : Entry.zero.toBytes k = 0 := by
  simp only [Entry.toBytes, Entry.zero]
  split_ifs <;> simp

end EntropyOS.Gpt
