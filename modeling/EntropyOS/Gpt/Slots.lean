import EntropyOS.Gpt.Table

/-!
# Slots and their names

`gpt_add_partition` encodes a name into the 36 units of a slot, and
`gpt_get_partition` decodes it from the memory of the array, past the field if
no unit ends it.  What is read of a well-formed slot depends on that slot
alone, and it is what was added.
-/

namespace EntropyOS.Gpt

open EntropyOS.Foundation

/-! ## The name field -/

@[simp] theorem charToUnit_toUInt8 (c : UInt8) : (charToUnit c).toUInt8 = c := by
  unfold charToUnit
  split
  · simp
  · apply UInt8.toNat.inj
    have hc := c.toNat_lt
    simp

theorem charToUnit_ne_zero {c : UInt8} (h : c ≠ 0) : charToUnit c ≠ 0 := by
  intro hzero
  apply h
  rw [← charToUnit_toUInt8 c, hzero]
  rfl

/-- The bytes of a name that fit the field; a null name has none. -/
def nameBytes : Option (List UInt8) → List UInt8
  | none => []
  | some name => (name.takeWhile (· ≠ 0)).take 35

theorem nameBytes_length (name : Option (List UInt8)) :
    (nameBytes name).length ≤ 35 := by
  cases name with
  | none => simp [nameBytes]
  | some name => simp [nameBytes]

theorem nameBytes_ne_zero {name : Option (List UInt8)} {c : UInt8}
    (h : c ∈ nameBytes name) : c ≠ 0 := by
  cases name with
  | none => simp [nameBytes] at h
  | some name =>
      have hall := List.all_takeWhile (p := fun c : UInt8 => decide (c ≠ 0))
        (l := name)
      have hc := List.all_eq_true.mp hall c (List.mem_of_mem_take h)
      simpa using hc

private theorem ofNat36_val {i : Nat} (hi : i ≤ 35) :
    ((Fin.ofNat 36 i : Fin 36) : Nat) = i := by
  simp only [Fin.ofNat]
  omega

private theorem update_units (utf16 : Fin 36 → UInt16) {i : Nat} (hi : i ≤ 35)
    (unit : UInt16) (k : Fin 36) :
    Function.update utf16 (Fin.ofNat 36 i) unit k =
      if (k : Nat) = i then unit else utf16 k := by
  have hval := ofNat36_val hi
  by_cases hk : (k : Nat) = i
  · rw [if_pos hk, show k = Fin.ofNat 36 i from Fin.ext (by omega),
      Function.update_self]
  · rw [if_neg hk, Function.update_of_ne]
    intro heq
    rw [heq] at hk
    exact hk hval

theorem utf8ToUtf16le_apply (name : List UInt8) {i : Nat} (hi : i ≤ 35)
    (utf16 : Fin 36 → UInt16) (hclear : ∀ k : Fin 36, i ≤ k → utf16 k = 0)
    (k : Fin 36) :
    utf8ToUtf16le 36 name i utf16 k =
      if (k : Nat) < i then utf16 k
      else (((name.takeWhile (· ≠ 0)).take (35 - i)).map charToUnit).getD
        (k - i) 0 := by
  -- where the loop stops, the terminator falls on a unit that is clear already
  have hstop : ∀ {i : Nat} (utf16 : Fin 36 → UInt16), i ≤ 35 →
      (∀ k : Fin 36, i ≤ k → utf16 k = 0) →
      Function.update utf16 (Fin.ofNat 36 i) 0 k =
        if (k : Nat) < i then utf16 k else 0 := by
    intro i utf16 hi hclear
    rw [update_units utf16 hi]
    have := hclear k
    split_ifs <;> first | rfl | omega | exact this (by omega)
  induction name generalizing i utf16 with
  | nil => simpa [utf8ToUtf16le] using hstop utf16 hi hclear
  | cons c rest ih =>
      rw [utf8ToUtf16le]
      by_cases hmore : c ≠ 0 ∧ i < 36 - 1
      · have hlow : i + 1 ≤ 35 := by omega
        have hclear' : ∀ k : Fin 36, i + 1 ≤ k → Function.update utf16
            (Fin.ofNat 36 i) (charToUnit c) k = 0 := by
          intro k hk
          rw [update_units utf16 hi, if_neg (by omega), hclear k (by omega)]
        rw [if_pos hmore, ih hlow _ hclear', update_units utf16 hi,
          List.takeWhile_cons_of_pos (by simpa using hmore.1),
          show 35 - i = (35 - (i + 1)) + 1 by omega, List.take_succ_cons,
          List.map_cons]
        rcases Nat.lt_trichotomy k i with hk | hk | hk
        · rw [if_pos (by omega), if_neg (by omega), if_pos hk]
        · rw [if_pos (by omega), if_pos hk, if_neg (by omega), hk]
          simp
        · rw [if_neg (by omega), if_neg (by omega),
            show (k : Nat) - i = (k - (i + 1)) + 1 by omega,
            List.getD_cons_succ]
      · have hempty : ((c :: rest).takeWhile (· ≠ 0)).take (35 - i) = [] := by
          by_cases hc : c = 0
          · simp [hc]
          · have hfull : ¬ i < 36 - 1 := fun hlt => hmore ⟨hc, hlt⟩
            rw [show 35 - i = 0 by omega, List.take_zero]
        rw [if_neg hmore, hstop utf16 hi hclear, hempty]
        simp

theorem Entry.fill_name {entry : Entry} (h : entry.name = fun _ => 0)
    (typeGuid guid : Guid) (firstLba lastLba : UInt64)
    (name : Option (List UInt8)) (k : Fin 36) :
    (entry.fill typeGuid guid firstLba lastLba name).name k =
      ((nameBytes name).map charToUnit).getD k 0 := by
  cases name with
  | none => simp [Entry.fill, nameBytes, h]
  | some name =>
      have hname := utf8ToUtf16le_apply name (Nat.zero_le 35) entry.name
        (fun k _ => by rw [h]) k
      simpa [Entry.fill, nameBytes] using hname

/-- The C string in an `info` record is `bytes`. -/
def HoldsString (field : Fin 73 → UInt8) (bytes : List UInt8) : Prop :=
  bytes.length < 73 ∧
    (∀ k < bytes.length, field (Fin.ofNat 73 k) = bytes.getD k 0) ∧
    field (Fin.ofNat 73 bytes.length) = 0

theorem utf16leToUtf8_apply (units : Nat → UInt16) (bytes : List UInt8)
    (room : Nat) {i : Nat} (utf8 : Fin 73 → UInt8) (hroom : bytes.length ≤ room)
    (hsize : i + room ≤ 72)
    (hunits : ∀ k < bytes.length, units (i + k) = charToUnit (bytes.getD k 0))
    (hend : units (i + bytes.length) = 0) (hbytes : ∀ c ∈ bytes, c ≠ 0) :
    (∀ k < i, utf16leToUtf8 units room i utf8 (Fin.ofNat 73 k) =
      utf8 (Fin.ofNat 73 k)) ∧
    (∀ k < bytes.length, utf16leToUtf8 units room i utf8 (Fin.ofNat 73 (i + k)) =
      bytes.getD k 0) ∧
    utf16leToUtf8 units room i utf8 (Fin.ofNat 73 (i + bytes.length)) = 0 := by
  induction bytes generalizing i room utf8 with
  | nil =>
      have hloop : utf16leToUtf8 units room i utf8 =
          Function.update utf8 (Fin.ofNat 73 i) 0 := by
        cases room with
        | zero => rfl
        | succ room =>
            rw [utf16leToUtf8, if_neg (not_not.mpr (by simpa using hend))]
      rw [hloop]
      exact Stored.nil (by omega)
  | cons c rest ih =>
      cases room with
      | zero => simp at hroom
      | succ room =>
          simp only [List.length_cons] at hroom
          have hunit : units i = charToUnit c := by
            simpa using hunits 0 (by simp)
          have hne : units i ≠ 0 := by
            rw [hunit]
            exact charToUnit_ne_zero (hbytes c (by simp))
          rw [utf16leToUtf8, if_pos hne, hunit, charToUnit_toUInt8]
          have hrest := ih room (i := i + 1)
            (Function.update utf8 (Fin.ofNat 73 i) c) (by omega) (by omega)
            (fun k hk => by
              have hk' := hunits (k + 1) (by simpa using hk)
              rwa [show i + (k + 1) = i + 1 + k by omega,
                List.getD_cons_succ] at hk')
            (by
              rw [List.length_cons] at hend
              rwa [show i + 1 + rest.length = i + (rest.length + 1) by omega])
            (fun d hd => hbytes d (List.mem_cons_of_mem _ hd))
          exact Stored.cons (x := fun k => (c :: rest).getD k 0) (by omega) hrest

/-- The name that is read depends on the units up to its end only. -/
theorem utf16leToUtf8_agree {units units' : Nat → UInt16} (room i : Nat)
    (h : ∀ k, i ≤ k → k < i + room → (∀ j, i ≤ j → j < k → units j ≠ 0) →
      units k = units' k) (utf8 : Fin 73 → UInt8) :
    utf16leToUtf8 units room i utf8 = utf16leToUtf8 units' room i utf8 := by
  induction room generalizing i utf8 with
  | zero => rfl
  | succ room ih =>
      have hi := h i le_rfl (by omega) fun j hle hlt => absurd hle (by omega)
      rw [utf16leToUtf8, utf16leToUtf8, ← hi]
      split
      · next hne =>
          refine ih _ (fun k hk hroom hbefore => ?_) _
          refine h k (by omega) (by omega) fun j hij hjk => ?_
          rcases Nat.eq_or_lt_of_le hij with rfl | hlt
          · exact hne
          · exact hbefore j hlt hjk
      · rfl

/-! ## Reading a slot back -/

theorem Statics.partitionBytes_entry (g : Statics) (i : Fin 128) {k : Nat}
    (hk : k < 128) :
    g.partitionBytes (128 * i + k) = (g.partitions i).toBytes k := by
  have hlt : 128 * (i : Nat) + k < 16384 := by omega
  have hdiv : (128 * (i : Nat) + k) / 128 = i := by omega
  have hmod : (128 * (i : Nat) + k) % 128 = k := by omega
  simp only [Statics.partitionBytes, hlt, dite_true, hdiv, hmod]

theorem Statics.ofBytes_arraySector (g : Statics) {i : Nat} (hi : i < 128) :
    (Entry.ofBytes fun k => (g.arraySector (i / 4)).toBuf (i % 4 * 128 + k)) =
      g.partitions (Fin.ofNat 128 i) := by
  apply Entry.ofBytes_of_agree
  intro k hk
  have hslot : ((Fin.ofNat 128 i : Fin 128) : Nat) = i := Nat.mod_eq_of_lt hi
  rw [Statics.arraySector, Sector.toBuf_ofBuf _ (by omega),
    ← g.partitionBytes_entry _ hk, hslot]
  exact congrArg _ (by omega)

theorem Statics.nameUnits_apply (g : Statics) {index : Nat} (hindex : index < 128)
    (k : Fin 36) :
    g.nameUnits index k = (g.partitions (Fin.ofNat 128 index)).name k := by
  have hread : readLe g.partitionBytes (128 * index + 56 + 2 * k) 2 =
      ((g.partitions (Fin.ofNat 128 index)).name k).toNat % 256 ^ 2 := by
    apply readLe_of_bytes
    intro j hj
    have hslot : ((Fin.ofNat 128 index : Fin 128) : Nat) = index := by
      simp only [Fin.ofNat]
      omega
    have hentry := g.partitionBytes_entry (Fin.ofNat 128 index)
      (k := 56 + 2 * k + j) (by omega)
    rw [hslot] at hentry
    rw [show 128 * index + 56 + 2 * (k : Nat) + j =
        128 * index + (56 + 2 * k + j) by omega, hentry,
      Entry.toBytes_name _ k j hj]
  rw [Statics.nameUnits, hread]
  have hlt := ((g.partitions (Fin.ofNat 128 index)).name k).toNat_lt
  rw [Nat.mod_eq_of_lt (by omega), UInt16.ofNat_toNat]

theorem Statics.partitionInfo_congr {g g' : Statics} {index : UInt32}
    (hinit : g.initialized = g'.initialized)
    (hentry : g.partitions (Fin.ofNat 128 index.toNat) =
      g'.partitions (Fin.ofNat 128 index.toNat))
    (hok : (g.partitions (Fin.ofNat 128 index.toNat)).Ok)
    (info : Option PartitionInfo) :
    g.partitionInfo index info = g'.partitionInfo index info := by
  cases info with
  | none => rfl
  | some info =>
      simp only [Statics.partitionInfo, ← hinit, ← hentry]
      split_ifs with hrefuse
      · rfl
      · rfl
      · have hindex : index.toNat < 128 := by
          rw [not_or] at hrefuse
          simpa [maxPartitions] using hrefuse.2
        have hunits : ∀ k < 36,
            g.nameUnits index.toNat k = g'.nameUnits index.toNat k := by
          intro k hk
          have hg := g.nameUnits_apply hindex ⟨k, hk⟩
          have hg' := g'.nameUnits_apply hindex ⟨k, hk⟩
          rw [← hentry] at hg'
          exact hg.trans hg'.symm
        obtain ⟨last, hzero⟩ := hok.name
        have hend : g.nameUnits index.toNat last = 0 := by
          rw [g.nameUnits_apply hindex last, hzero]
        rw [utf16leToUtf8_agree 72 0 (fun k _ _ hbefore => hunits k ?_) info.name]
        by_contra hbehind
        exact hbefore last (Nat.zero_le _) (by omega) hend

theorem gptGetPartition_executes (image : Image) (index : UInt32)
    (info : Option PartitionInfo) :
    Executes image (gptGetPartition index info)
      (image.statics.partitionInfo index info) image :=
  Runs.bind (getGpt_executes image) (Runs.pure _ _)

theorem sameResult_gptGetPartition {s s' : System} {image image' : Image}
    (hs : Represents s image) (hs' : Represents s' image') {index : UInt32}
    (hinit : image.statics.initialized = image'.statics.initialized)
    (hentry : image.statics.partitions (Fin.ofNat 128 index.toNat) =
      image'.statics.partitions (Fin.ofNat 128 index.toNat))
    (hok : (image.statics.partitions (Fin.ofNat 128 index.toNat)).Ok)
    (info : Option PartitionInfo) :
    SameResult (gptGetPartition index info) s s' := by
  refine ⟨_, (gptGetPartition_executes image index info).returns hs, ?_⟩
  rw [Statics.partitionInfo_congr hinit hentry hok]
  exact (gptGetPartition_executes image' index info).returns hs'

/-- `slot` is the first slot without a type. -/
structure LowestFree (g : Statics) (slot : Nat) : Prop where
  lt : slot < maxPartitions
  free : (g.partitions (Fin.ofNat 128 slot)).typeGuid.IsZero
  least : ∀ i < slot, ¬ (g.partitions (Fin.ofNat 128 i)).typeGuid.IsZero

private theorem findFreeSlot_least {partitions : Fin 128 → Entry}
    {count i slot : Nat} (h : findFreeSlot partitions count i = some slot) :
    slot < i + count ∧
    (partitions (Fin.ofNat 128 slot)).typeGuid.IsZero ∧
    ∀ k, i ≤ k → k < slot → ¬ (partitions (Fin.ofNat 128 k)).typeGuid.IsZero := by
  induction count generalizing i with
  | zero => simp [findFreeSlot] at h
  | succ count ih =>
      rw [findFreeSlot] at h
      split at h
      · next hfree =>
          cases h
          exact ⟨by omega, hfree, fun k hle hlt => absurd hle (by omega)⟩
      · next hused =>
          obtain ⟨hlt, hfree, hleast⟩ := ih h
          refine ⟨by omega, hfree, fun k hle hk => ?_⟩
          rcases Nat.eq_or_lt_of_le hle with rfl | hnext
          · exact hused
          · exact hleast k hnext hk

theorem lowestFree_of_find {g : Statics} {slot : Nat}
    (h : findFreeSlot g.partitions maxPartitions 0 = some slot) :
    LowestFree g slot := by
  obtain ⟨hlt, hfree, hleast⟩ := findFreeSlot_least h
  exact ⟨by omega, hfree, fun i hi => hleast i (Nat.zero_le i) hi⟩

/-- The record that is read describes the partition that was added. -/
structure Describes (info : PartitionInfo) (firstLba lastLba : UInt64)
    (typeGuid : Guid) (name : Option (List UInt8)) : Prop where
  typeGuid : info.typeGuid = typeGuid
  firstLba : info.firstLba = firstLba
  lastLba : info.lastLba = lastLba
  attributes : info.attributes = 0
  name : HoldsString info.name (nameBytes name)
  valid : info.valid = 1

theorem Statics.partitionInfo_of_fill {g : Statics} (index : UInt32)
    {entry : Entry} {typeGuid guid : Guid} {firstLba lastLba : UInt64}
    {name : Option (List UInt8)} (hinit : g.initialized = true)
    (hindex : index.toNat < maxPartitions) (htype : ¬ typeGuid.IsZero)
    (hentry : g.partitions (Fin.ofNat 128 index.toNat) =
      entry.fill typeGuid guid firstLba lastLba name)
    (hclear : entry.name = fun _ => 0) (info : PartitionInfo) :
    ∃ info', g.partitionInfo index (some info) = (0, some info') ∧
      Describes info' firstLba lastLba typeGuid name := by
  have hlength := nameBytes_length name
  have hunits : ∀ k < 36, g.nameUnits index.toNat k =
      ((nameBytes name).map charToUnit).getD k 0 := by
    intro k hk
    have hread := g.nameUnits_apply hindex ⟨k, hk⟩
    rw [hentry, Entry.fill_name hclear] at hread
    exact hread
  have hend : g.nameUnits index.toNat (0 + (nameBytes name).length) = 0 := by
    rw [Nat.zero_add, hunits _ (by omega)]
    simp [List.getD]
  have hchars : ∀ k < (nameBytes name).length, g.nameUnits index.toNat (0 + k) =
      charToUnit ((nameBytes name).getD k 0) := by
    intro k hk
    rw [Nat.zero_add, hunits k (by omega)]
    simp [hk]
  obtain ⟨-, hname, hzero⟩ := utf16leToUtf8_apply (g.nameUnits index.toNat)
    (nameBytes name) 72 info.name (by omega) (by omega) hchars hend
    (fun _ => nameBytes_ne_zero)
  let info' : PartitionInfo := {
    typeGuid := typeGuid
    partitionGuid := guid
    firstLba := firstLba
    lastLba := lastLba
    attributes := 0
    name := utf16leToUtf8 (g.nameUnits index.toNat) 72 0 info.name
    valid := 1 }
  have htype' : ¬ (entry.fill typeGuid guid firstLba lastLba
      name).typeGuid.IsZero := htype
  have hresult : g.partitionInfo index (some info) = (0, some info') := by
    simp only [Statics.partitionInfo, hentry]
    rw [if_neg (by simp [hinit, hindex]), if_neg htype']
    rfl
  refine ⟨info', hresult, rfl, rfl, rfl, rfl, ⟨by omega, ?_, ?_⟩, rfl⟩
  · simpa using hname
  · simpa using hzero

end EntropyOS.Gpt
