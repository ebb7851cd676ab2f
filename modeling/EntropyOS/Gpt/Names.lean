import EntropyOS.Gpt.Failing
import EntropyOS.Gpt.Loading

/-!
# Partition names

`utf16le_to_utf8` stops at a zero unit or when its buffer is full, but the
buffer is twice as long as the name field.  And both conversions take a byte
for a code unit, which is right for ASCII only.
-/

namespace EntropyOS.Gpt

open EntropyOS.Foundation

/-! ## Reading within the field -/

namespace Guarded

/-- `utf16le_to_utf8` on a field of 36 units. -/
def utf16leToUtf8 (units : Nat → UInt16) :
    (room i : Nat) → (Fin 73 → UInt8) → Program System (Fin 73 → UInt8)
  | 0, i, utf8 => do
      -- the loop condition looks at the unit before it looks at the room
      demand (i < 36)
      return Function.update utf8 (Fin.ofNat 73 i) 0
  | room + 1, i, utf8 => do
      demand (i < 36)
      if units i ≠ 0 then
        utf16leToUtf8 units room (i + 1)
          (Function.update utf8 (Fin.ofNat 73 i) (units i).toUInt8)
      else
        return Function.update utf8 (Fin.ofNat 73 i) 0

/-- `gpt_get_partition` with an `info` that is not null. -/
def gptGetPartition (index : UInt32) (info : PartitionInfo) :
    Program System (Int × Option PartitionInfo) := do
  let g ← getGpt
  let entry := g.partitions (Fin.ofNat 128 index.toNat)
  if !g.initialized ∨ index.toNat ≥ maxPartitions then
    return (-1, some info)
  if entry.typeGuid.IsZero then
    return (-1, some { info with valid := 0 })
  let name ← utf16leToUtf8 (g.nameUnits index.toNat) 72 0 info.name
  return (0, some {
    typeGuid := entry.typeGuid
    partitionGuid := entry.partitionGuid
    firstLba := entry.firstLba
    lastLba := entry.lastLba
    attributes := entry.attributes
    name := name
    valid := 1 })

end Guarded

/-- The field ends, at unit `i` or later. -/
def FieldEnds (units : Nat → UInt16) (i : Nat) : Prop :=
  ∃ k, i ≤ k ∧ k < 36 ∧ units k = 0

theorem FieldEnds.next {units : Nat → UInt16} {i : Nat} (h : units i ≠ 0) :
    FieldEnds units i ↔ FieldEnds units (i + 1) := by
  constructor
  · rintro ⟨k, hlow, hhigh, hzero⟩
    refine ⟨k, ?_, hhigh, hzero⟩
    rcases Nat.eq_or_lt_of_le hlow with rfl | hlt
    · exact absurd hzero h
    · exact hlt
  · rintro ⟨k, hlow, hhigh, hzero⟩
    exact ⟨k, by omega, hhigh, hzero⟩

theorem guarded_utf16leToUtf8 (units : Nat → UInt16) (room : Nat) {i : Nat}
    (hroom : i + room = 72) (utf8 : Fin 73 → UInt8) (s : System) :
    (FieldEnds units i → Guarded.utf16leToUtf8 units room i utf8 s =
      some (utf16leToUtf8 units room i utf8, s)) ∧
    (¬ FieldEnds units i → Guarded.utf16leToUtf8 units room i utf8 s = none) := by
  induction room generalizing i utf8 with
  | zero =>
      rw [Guarded.utf16leToUtf8, demand_bind, if_neg (by omega)]
      refine ⟨?_, fun _ => rfl⟩
      rintro ⟨k, hlow, hhigh, -⟩
      omega
  | succ room ih =>
      rw [Guarded.utf16leToUtf8, utf16leToUtf8, demand_bind]
      by_cases hi : i < 36
      · rw [if_pos hi]
        by_cases hunit : units i ≠ 0
        · rw [if_pos hunit, if_pos hunit, FieldEnds.next hunit]
          exact ih (by omega) _
        · rw [if_neg hunit, if_neg hunit]
          refine ⟨fun _ => rfl, fun hends => absurd ?_ hends⟩
          exact ⟨i, le_rfl, hi, not_not.mp hunit⟩
      · rw [if_neg hi]
        refine ⟨?_, fun _ => rfl⟩
        rintro ⟨k, hlow, hhigh, -⟩
        omega

theorem utf16leToUtf8_terminated (units : Nat → UInt16) (room i : Nat)
    (utf8 : Fin 73 → UInt8) : ∃ k, utf16leToUtf8 units room i utf8 k = 0 := by
  induction room generalizing i utf8 with
  | zero => exact ⟨_, Function.update_self _ _ _⟩
  | succ room ih =>
      rw [utf16leToUtf8]
      split
      · exact ih _ _
      · exact ⟨_, Function.update_self _ _ _⟩

/-- The name is read within its field, and written with a terminator. -/
def StaysInField (index : UInt32) (info : PartitionInfo) (s : System) : Prop :=
  ∃ status info',
    Guarded.gptGetPartition index info s = some ((status, some info'), s) ∧
    gptGetPartition index (some info) s = some ((status, some info'), s) ∧
    (status = 0 → ∃ k, info'.name k = 0)

theorem initialized_of_init {s loaded : System}
    (h : gptInit s = some (0, loaded)) : loaded.gpt.initialized = true := by
  obtain ⟨status, s', hrun, hloads⟩ := gptInit_run s
  rw [h] at hrun
  cases hrun
  generalize loaded.gpt = g at hloads
  cases hloads
  rfl

theorem Statics.fieldEnds_iff (g : Statics) {index : Nat} (hindex : index < 128) :
    FieldEnds (g.nameUnits index) 0 ↔
      ∃ k, (g.partitions (Fin.ofNat 128 index)).name k = 0 := by
  constructor
  · rintro ⟨k, -, hk, hzero⟩
    refine ⟨⟨k, hk⟩, ?_⟩
    rw [← g.nameUnits_apply hindex]
    exact hzero
  · rintro ⟨k, hzero⟩
    refine ⟨k, Nat.zero_le _, k.isLt, ?_⟩
    rw [g.nameUnits_apply hindex, hzero]

/-- A name without a terminator takes the reader out of its field. -/
theorem guarded_gptGetPartition_none {s : System} {index : UInt32}
    (hinit : s.gpt.initialized = true) (hindex : index.toNat < 128)
    (hused : ¬ (s.gpt.partitions (Fin.ofNat 128 index.toNat)).typeGuid.IsZero)
    (hends : ¬ FieldEnds (s.gpt.nameUnits index.toNat) 0) (info : PartitionInfo) :
    Guarded.gptGetPartition index info s = none := by
  have haccept : ¬ (!s.gpt.initialized ∨ index.toNat ≥ maxPartitions) := by
    simpa [hinit, maxPartitions] using hindex
  unfold Guarded.gptGetPartition
  rw [Program.bind_of_some (getGpt_apply s), if_neg haccept, if_neg hused,
    Program.bind_apply,
    (guarded_utf16leToUtf8 _ 72 (Nat.zero_add 72) info.name s).2 hends]
  rfl

/--
Of a table that was loaded, an entry is read within its name field exactly if
it is free or one of the 36 units of its name is zero.
-/
theorem gptGetPartition_in_field_iff {s loaded : System}
    (hload : gptInit s = some (0, loaded)) {index : UInt32}
    (hindex : index.toNat < 128) (info : PartitionInfo) :
    StaysInField index info loaded ↔
      (loaded.gpt.partitions (Fin.ofNat 128 index.toNat)).typeGuid.IsZero ∨
      ∃ k, (loaded.gpt.partitions (Fin.ofNat 128 index.toNat)).name k = 0 := by
  have hinit := initialized_of_init hload
  rw [← loaded.gpt.fieldEnds_iff hindex]
  constructor
  · rintro ⟨status, info', hguarded, -, -⟩
    by_contra hbad
    rw [not_or] at hbad
    rw [guarded_gptGetPartition_none hinit hindex hbad.1 hbad.2] at hguarded
    cases hguarded
  · intro hgood
    have haccept : ¬ (!loaded.gpt.initialized ∨ index.toNat ≥ maxPartitions) := by
      simpa [hinit, maxPartitions] using hindex
    have hplain : gptGetPartition index (some info) loaded =
        some (loaded.gpt.partitionInfo index (some info), loaded) := rfl
    unfold StaysInField Guarded.gptGetPartition
    rw [Program.bind_of_some (getGpt_apply loaded), hplain, Statics.partitionInfo]
    simp only [if_neg haccept]
    by_cases hfree :
        (loaded.gpt.partitions (Fin.ofNat 128 index.toNat)).typeGuid.IsZero
    · simp only [if_pos hfree]
      exact ⟨-1, _, rfl, rfl, fun h => absurd h (by decide)⟩
    · have hname := (guarded_utf16leToUtf8 (loaded.gpt.nameUnits index.toNat) 72
        (Nat.zero_add 72) info.name loaded).1 (hgood.resolve_left hfree)
      simp only [if_neg hfree]
      rw [Program.bind_of_some hname]
      exact ⟨0, _, rfl, rfl, fun _ => utf16leToUtf8_terminated _ _ _ _⟩

/-- Every array of entries is on some disk that `gpt_init` loads. -/
theorem exists_loaded (partitions : Fin 128 → Entry) :
    ∃ s loaded, gptInit s = some (0, loaded) ∧
      loaded.gpt.partitions = partitions := by
  let g : Statics := { Statics.startup with
    header := newHeader 100 fun _ => 0
    partitions := partitions }
  have hheader : g.sealTable.header =
      (tableHeader 100 (fun _ => 0) g.arrayCrc).sealCrc := g.sealTable_header
  have hcrc : g.sealTable.header.headerCrc32 =
      crc32 (g.sealTable.header.withCrc 0).toBytes 92 := by
    rw [hheader]
    exact Header.sealCrc_headerCrc32 _
  have hstandard : g.sealTable.header.Standard := by
    rw [hheader]
    exact tableHeader_standard _ _ _
  let disk := Image.tableDisk g.sealTable fun _ => Sector.zero
  have hread : Header.ofBytes (disk 1).toBuf = g.sealTable.header :=
    g.sealTable.ofBytes_headerSector
  have harray : ∀ i < 32, disk (2 + i) = g.arraySector i := fun i hi =>
    Image.store_disk_array ⟨g, fun _ => Sector.zero⟩ hi
  obtain ⟨loaded, hrun, -, hgpt, -⟩ :=
    gptInit_executes hstandard hcrc g Statics.startup disk hread harray
      (System.startup disk) (represents_image (System.startup_faultFree disk))
  refine ⟨_, loaded, hrun, ?_⟩
  rw [hgpt]

/-- A partition whose name fills the field with the letter A. -/
def fullNameEntry : Entry :=
  { Entry.zero with typeGuid := efiSystemType, name := fun _ => 0x41 }

/-- Such a name is read past its field. -/
theorem full_name_read_past_field :
    ∃ s loaded, gptInit s = some (0, loaded) ∧
      ∀ info, ¬ StaysInField 0 info loaded := by
  obtain ⟨s, loaded, hload, hpartitions⟩ := exists_loaded fun _ => fullNameEntry
  refine ⟨s, loaded, hload, ?_⟩
  rintro info ⟨status, info', hguarded, -, -⟩
  have hindex : (0 : UInt32).toNat < 128 := by decide
  have hused : ¬ (loaded.gpt.partitions
      (Fin.ofNat 128 (0 : UInt32).toNat)).typeGuid.IsZero := by
    rw [hpartitions]
    exact efiSystemType_not_zero
  have hends : ¬ FieldEnds (loaded.gpt.nameUnits (0 : UInt32).toNat) 0 := by
    rw [loaded.gpt.fieldEnds_iff hindex, hpartitions]
    rintro ⟨k, hzero⟩
    change (0x41 : UInt16) = 0 at hzero
    exact absurd hzero (by decide)
  have hnone := guarded_gptGetPartition_none (initialized_of_init hload) hindex
    hused hends info
  rw [hnone] at hguarded
  cases hguarded

theorem terminated_name_read_within_field :
    ∃ s loaded, gptInit s = some (0, loaded) ∧
      ∀ info, StaysInField 0 info loaded := by
  obtain ⟨s, loaded, hload, hpartitions⟩ := exists_loaded fun _ =>
    { fullNameEntry with name := fun k => if k = 35 then 0 else 0x41 }
  refine ⟨s, loaded, hload, fun info => ?_⟩
  refine (gptGetPartition_in_field_iff hload (by decide) info).mpr (.inr ⟨35, ?_⟩)
  rw [hpartitions]
  rfl

/-! ## Text in the field -/

def utf16EncodeChar (c : Char) : List UInt16 :=
  if c.toNat < 0x10000 then [UInt16.ofNat c.toNat]
  else [UInt16.ofNat (0xD800 + (c.toNat - 0x10000) / 0x400),
    UInt16.ofNat (0xDC00 + (c.toNat - 0x10000) % 0x400)]

def utf16Encode (text : List Char) : List UInt16 := text.flatMap utf16EncodeChar

def utf8Encode (text : List Char) : List UInt8 :=
  text.flatMap String.utf8EncodeChar

def HoldsUnits (field : Nat → UInt16) (units : List UInt16) : Prop :=
  (∀ k < units.length, field k = units.getD k 0) ∧ field units.length = 0

/-- The name of every partition that is added with this text is its UTF-16. -/
def StoredAsUtf16 (text : List Char) : Prop :=
  ∀ firstLba lastLba typeGuid s s',
    gptAddPartition firstLba lastLba typeGuid (some (utf8Encode text)) s =
      some (0, s') →
    ∃ slot, findFreeSlot s.gpt.partitions maxPartitions 0 = some slot ∧
      HoldsUnits
        (fun k => (s'.gpt.partitions (Fin.ofNat 128 slot)).name (Fin.ofNat 36 k))
        (utf16Encode text)

def ReadAsUtf8 (text : List Char) : Prop :=
  ∀ field utf8, HoldsUnits field (utf16Encode text) →
    HoldsString (utf16leToUtf8 field 72 0 utf8) ((utf8Encode text).take 72)

def Ascii (text : List Char) : Prop := ∀ c ∈ text, c.toNat < 128

/-! ## Lengths of encodings -/

theorem utf16EncodeChar_length_le (c : Char) :
    (utf16EncodeChar c).length ≤ (String.utf8EncodeChar c).length := by
  rw [String.length_utf8EncodeChar]
  unfold utf16EncodeChar
  split
  · exact c.utf8Size_pos
  · next hlarge =>
      have hfour : c.utf8Size = 4 := by
        rw [Char.utf8Size_eq_four_iff, UInt32.lt_iff_toNat_lt]
        exact Nat.not_lt.mp hlarge
      simp [hfour]

/-- Beyond ASCII, UTF-8 takes more bytes than UTF-16 takes units. -/
theorem utf16EncodeChar_length_lt {c : Char} (h : 128 ≤ c.toNat) :
    (utf16EncodeChar c).length < (String.utf8EncodeChar c).length := by
  rw [String.length_utf8EncodeChar]
  unfold utf16EncodeChar
  split
  · have hone : c.utf8Size ≠ 1 := by
      rw [ne_eq, Char.utf8Size_eq_one_iff, UInt32.le_iff_toNat_le]
      exact Nat.not_le.mpr h
    have hpos := c.utf8Size_pos
    simp only [List.length_singleton]
    omega
  · next hlarge =>
      have hfour : c.utf8Size = 4 := by
        rw [Char.utf8Size_eq_four_iff, UInt32.lt_iff_toNat_lt]
        exact Nat.not_lt.mp hlarge
      simp [hfour]

theorem utf16Encode_length_le (text : List Char) :
    (utf16Encode text).length ≤ (utf8Encode text).length := by
  induction text with
  | nil => exact le_rfl
  | cons c text ih =>
      have hfirst := utf16EncodeChar_length_le c
      simp only [utf16Encode, utf8Encode, List.flatMap_cons,
        List.length_append] at ih ⊢
      omega

theorem utf16Encode_length_lt {text : List Char} (h : ¬ Ascii text) :
    (utf16Encode text).length < (utf8Encode text).length := by
  unfold Ascii at h
  push Not at h
  obtain ⟨c, hc, hbeyond⟩ := h
  obtain ⟨before, after, rfl⟩ := List.append_of_mem hc
  have hbefore := utf16Encode_length_le before
  have hafter := utf16Encode_length_le after
  have hchar := utf16EncodeChar_length_lt hbeyond
  simp only [utf16Encode, utf8Encode, List.flatMap_append, List.flatMap_cons,
    List.length_append] at hbefore hafter ⊢
  omega

theorem utf8EncodeChar_ne_zero {c : Char} (hpos : 0 < c.toNat) {byte : UInt8}
    (hbyte : byte ∈ String.utf8EncodeChar c) : byte ≠ 0 := by
  have hnat : ∀ n, 0 < n → n < 256 → UInt8.ofNat n ≠ 0 := by
    intro n hlow hhigh heq
    have hval := congrArg UInt8.toNat heq
    rw [UInt8.toNat_ofNat'] at hval
    change n % 2 ^ 8 = 0 at hval
    omega
  unfold String.utf8EncodeChar at hbyte
  change 0 < c.val.toNat at hpos
  have hlt := c.val.toNat_lt
  simp only at hbyte
  split_ifs at hbyte
  all_goals
    simp only [List.mem_cons, List.not_mem_nil, or_false] at hbyte
  · subst hbyte
    exact hnat _ hpos (by omega)
  · rcases hbyte with rfl | rfl <;> exact hnat _ (by omega) (by omega)
  · rcases hbyte with rfl | rfl | rfl <;> exact hnat _ (by omega) (by omega)
  · rcases hbyte with rfl | rfl | rfl | rfl <;> exact hnat _ (by omega) (by omega)

theorem utf8Encode_ne_zero {text : List Char} (hstring : ∀ c ∈ text, 0 < c.toNat) :
    ∀ byte ∈ utf8Encode text, byte ≠ 0 := by
  intro byte hbyte
  obtain ⟨c, hc, hin⟩ := List.mem_flatMap.mp hbyte
  exact utf8EncodeChar_ne_zero (hstring c hc) hin

/-! ## Reading text -/

theorem utf16leToUtf8_stops (units : Nat → UInt16) (room : Nat) {i n : Nat}
    (utf8 : Fin 73 → UInt8) (hn : n ≤ room) (hend : units (i + n) = 0) :
    ∃ j ≤ n, utf16leToUtf8 units room i utf8 (Fin.ofNat 73 (i + j)) = 0 := by
  induction room generalizing i n utf8 with
  | zero => exact ⟨0, Nat.zero_le n, Function.update_self _ _ _⟩
  | succ room ih =>
      rw [utf16leToUtf8]
      split
      · next hunit =>
          cases n with
          | zero => exact absurd hend hunit
          | succ n =>
              obtain ⟨j, hj, hzero⟩ := ih (i := i + 1) (n := n)
                (Function.update utf8 (Fin.ofNat 73 i) (units i).toUInt8)
                (by omega) (by rwa [Nat.add_assoc, Nat.add_comm 1])
              refine ⟨j + 1, by omega, ?_⟩
              rwa [Nat.add_assoc, Nat.add_comm 1] at hzero
      · exact ⟨0, Nat.zero_le n, Function.update_self _ _ _⟩

theorem ascii_of_readAsUtf8 {text : List Char}
    (hfits : (utf16Encode text).length ≤ 35) (hstring : ∀ c ∈ text, 0 < c.toNat)
    (h : ReadAsUtf8 text) : Ascii text := by
  by_contra hascii
  have hlong := utf16Encode_length_lt hascii
  have hfield : HoldsUnits (fun k => (utf16Encode text).getD k 0)
      (utf16Encode text) :=
    ⟨fun _ _ => rfl, by simp [List.getD]⟩
  obtain ⟨-, hbytes, -⟩ := h _ (fun _ => 0) hfield
  have hend : (fun k => (utf16Encode text).getD k 0)
      (0 + (utf16Encode text).length) = 0 := by
    rw [Nat.zero_add]
    exact hfield.2
  obtain ⟨j, hj, hzero⟩ := utf16leToUtf8_stops
    (fun k => (utf16Encode text).getD k 0) 72 (fun _ => 0)
    (show (utf16Encode text).length ≤ 72 by omega) hend
  rw [Nat.zero_add] at hzero
  have hlength : j < ((utf8Encode text).take 72).length := by
    rw [List.length_take]
    omega
  have hbyte : 0 = ((utf8Encode text).take 72).get ⟨j, hlength⟩ := by
    rw [← hzero, hbytes j hlength, List.getD_eq_getElem?_getD,
      List.getElem?_eq_getElem hlength]
    rfl
  have hmem := List.get_mem ((utf8Encode text).take 72) ⟨j, hlength⟩
  exact utf8Encode_ne_zero hstring _ (List.mem_of_mem_take hmem) hbyte.symm

/-! ## Storing text -/

theorem utf8ToUtf16le_stores (bytes : List UInt8) {i : Nat}
    (hfits : i + bytes.length ≤ 35) (hbytes : ∀ c ∈ bytes, c ≠ 0)
    (utf16 : Fin 36 → UInt16) :
    (∀ k < i, utf8ToUtf16le 36 bytes i utf16 (Fin.ofNat 36 k) =
      utf16 (Fin.ofNat 36 k)) ∧
    (∀ k < bytes.length, utf8ToUtf16le 36 bytes i utf16 (Fin.ofNat 36 (i + k)) =
      charToUnit (bytes.getD k 0)) ∧
    utf8ToUtf16le 36 bytes i utf16 (Fin.ofNat 36 (i + bytes.length)) = 0 := by
  induction bytes generalizing i utf16 with
  | nil =>
      rw [utf8ToUtf16le]
      exact Stored.nil (by rw [List.length_nil] at hfits; omega)
  | cons c rest ih =>
      simp only [List.length_cons] at hfits
      have hmore : c ≠ 0 ∧ i < 36 - 1 := ⟨hbytes c (by simp), by omega⟩
      have hrest := ih (i := i + 1) (by omega)
        (fun d hd => hbytes d (List.mem_cons_of_mem _ hd))
        (Function.update utf16 (Fin.ofNat 36 i) (charToUnit c))
      rw [utf8ToUtf16le, if_pos hmore]
      exact Stored.cons (x := fun k => charToUnit ((c :: rest).getD k 0))
        (by omega) hrest

theorem gptAddPartition_stores {firstLba lastLba : UInt64} {typeGuid : Guid}
    {name : Option (List UInt8)} {s s' : System}
    (h : gptAddPartition firstLba lastLba typeGuid name s = some (0, s')) :
    ∃ slot, findFreeSlot s.gpt.partitions maxPartitions 0 = some slot ∧
      s'.gpt.partitions (Fin.ofNat 128 slot) =
        (s.gpt.partitions (Fin.ofNat 128 slot)).fill typeGuid
          (generateGuid s.gpt.seed).1 firstLba lastLba name := by
  by_cases hinit : s.gpt.initialized = true
  swap
  · unfold gptAddPartition at h
    rw [Program.bind_of_some (getGpt_apply s), if_neg hinit] at h
    cases h
  rcases Edit.run_cases (.add firstLba lastLba typeGuid name) hinit with
    ⟨-, hrefuse⟩ | ⟨f, heffect, hrun⟩
  · exact absurd (h.symm.trans hrefuse) (by simp)
  · have hgpt := storeTable_gpt (hrun.symm.trans h)
    cases heffect with
    | @add _ _ _ _ slot hslot _ =>
        refine ⟨slot, hslot, ?_⟩
        rw [hgpt, Statics.sealTable_partitions]
        exact Function.update_self _ _ _

section Ascii

variable {text : List Char} (h : Ascii text)

include h

theorem utf8Encode_ascii :
    utf8Encode text = text.map fun c => UInt8.ofNat c.toNat := by
  have hchar : ∀ c ∈ text, String.utf8EncodeChar c = [UInt8.ofNat c.toNat] := by
    intro c hc
    exact if_pos (Nat.le_of_lt_succ (h c hc))
  rw [utf8Encode, List.flatMap_congr hchar, List.map_eq_flatMap]

theorem utf16Encode_ascii : utf16Encode text =
    (text.map fun c => UInt8.ofNat c.toNat).map charToUnit := by
  have hchar : ∀ c ∈ text,
      utf16EncodeChar c = [charToUnit (UInt8.ofNat c.toNat)] := by
    intro c hc
    have hlt := h c hc
    have hbyte : (UInt8.ofNat c.toNat).toNat = c.toNat := by
      rw [UInt8.toNat_ofNat']
      omega
    have hsmall : UInt8.ofNat c.toNat < 0x80 := by
      rw [UInt8.lt_iff_toNat_lt, hbyte]
      exact hlt
    have hunit : UInt16.ofNat c.toNat = (UInt8.ofNat c.toNat).toUInt16 := by
      apply UInt16.toNat.inj
      rw [UInt16.toNat_ofNat', UInt8.toNat_toUInt16, hbyte]
      omega
    rw [utf16EncodeChar, if_pos (by omega), charToUnit, if_pos hsmall, hunit]
  rw [utf16Encode, List.flatMap_congr hchar, List.map_map, List.map_eq_flatMap]
  rfl

theorem utf16Encode_eq_map : utf16Encode text = (utf8Encode text).map charToUnit := by
  rw [utf16Encode_ascii h, utf8Encode_ascii h]

variable (hfits : (utf16Encode text).length ≤ 35)
  (hstring : ∀ c ∈ text, 0 < c.toNat)

include hfits hstring

theorem storedAsUtf16_of_ascii : StoredAsUtf16 text := by
  intro firstLba lastLba typeGuid s s' hrun
  obtain ⟨slot, hslot, hentry⟩ := gptAddPartition_stores hrun
  have hbytes := utf8Encode_ne_zero hstring
  have hunits := utf16Encode_eq_map h
  rw [hunits, List.length_map] at hfits
  obtain ⟨-, hstored, hzero⟩ := utf8ToUtf16le_stores (utf8Encode text)
    (show 0 + (utf8Encode text).length ≤ 35 by omega) hbytes
    (s.gpt.partitions (Fin.ofNat 128 slot)).name
  simp only [Nat.zero_add] at hstored hzero
  refine ⟨slot, hslot, ?_⟩
  rw [hentry, hunits]
  refine ⟨fun k hk => ?_, ?_⟩
  · rw [List.length_map] at hk
    refine (hstored k hk).trans ?_
    simp [List.getD, hk]
  · rw [List.length_map]
    exact hzero

theorem readAsUtf8_of_ascii : ReadAsUtf8 text := by
  intro field utf8 hfield
  have hbytes := utf8Encode_ne_zero hstring
  have hunits := utf16Encode_eq_map h
  rw [hunits, HoldsUnits, List.length_map] at hfield
  rw [hunits, List.length_map] at hfits
  obtain ⟨-, hread, hzero⟩ := utf16leToUtf8_apply field (utf8Encode text) 72 utf8
    (i := 0) (by omega) (by omega)
    (fun k hk => by
      rw [Nat.zero_add, hfield.1 k hk]
      simp [List.getD, hk])
    (by rw [Nat.zero_add]; exact hfield.2) hbytes
  simp only [Nat.zero_add] at hread hzero
  rw [List.take_of_length_le (by omega)]
  exact ⟨by omega, hread, hzero⟩

end Ascii

/-- A name goes through both conversions unharmed exactly if it is ASCII. -/
theorem names_are_utf16_iff {text : List Char}
    (hfits : (utf16Encode text).length ≤ 35) (hstring : ∀ c ∈ text, 0 < c.toNat) :
    StoredAsUtf16 text ∧ ReadAsUtf8 text ↔ Ascii text := by
  constructor
  · rintro ⟨-, hread⟩
    exact ascii_of_readAsUtf8 hfits hstring hread
  · intro hascii
    exact ⟨storedAsUtf16_of_ascii hascii hfits hstring,
      readAsUtf8_of_ascii hascii hfits hstring⟩

/-- The letter e with an acute accent is not read back. -/
theorem accent_not_read_back :
    (utf16Encode [Char.ofNat 0xE9]).length ≤ 35 ∧
      ¬ (StoredAsUtf16 [Char.ofNat 0xE9] ∧ ReadAsUtf8 [Char.ofNat 0xE9]) := by
  refine ⟨by decide, ?_⟩
  rintro ⟨-, hread⟩
  have hascii := ascii_of_readAsUtf8 (by decide) (by simp) hread
  exact absurd (hascii _ (List.mem_singleton_self _)) (by decide)

theorem ascii_name_kept :
    StoredAsUtf16 [Char.ofNat 0x41] ∧ ReadAsUtf8 [Char.ofNat 0x41] :=
  (names_are_utf16_iff (by decide) (by simp)).mpr (by simp [Ascii])

end EntropyOS.Gpt
