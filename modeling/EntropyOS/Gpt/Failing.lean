import EntropyOS.Gpt.Ranges
import EntropyOS.Gpt.Slots

/-!
# Edits that fail

An edit changes the table in memory and then stores it, header first, and it
has no way back.  So a failed write leaves the new table in memory, where
`gpt_get_partition` shows it.
-/

namespace EntropyOS.Gpt

open EntropyOS.Foundation

/-! ## The writes of a table -/

/-- The 33 writes that store a table all succeed, the header first. -/
def TakesTable (device : Device) : Prop :=
  (device.sataPresent || device.msPresent) = true ∧
    ∀ i < 33, device.faults i (1 + i) = false

instance (device : Device) : Decidable (TakesTable device) :=
  inferInstanceAs (Decidable (_ ∧ _))

theorem storeArray_present {s : System} {i : Nat} (count : Nat)
    (hs : (s.device.sataPresent || s.device.msPresent) = true) :
    ∃ s', storeArray count i s = some (if
      ∀ k < count, s.device.faults k (2 + i + k) = false then 0 else -1, s') := by
  induction count generalizing s i with
  | zero => exact ⟨s, by simp [storeArray]⟩
  | succ count ih =>
      rw [storeArray, Program.bind_of_some (getGpt_apply s)]
      have hwrite := blockWriteSector_present (2 + i) hs (s.gpt.arraySector i)
      cases hfault : s.device.faults 0 (2 + i) with
      | true =>
          rw [hfault, if_pos rfl] at hwrite
          rw [Program.bind_of_some hwrite, if_pos (by decide), if_neg]
          · exact ⟨_, rfl⟩
          · intro hall
            have hfirst := hall 0 (Nat.succ_pos count)
            rw [Nat.add_zero, hfault] at hfirst
            cases hfirst
      | false =>
          rw [hfault, if_neg (by decide)] at hwrite
          rw [Program.bind_of_some hwrite, if_neg (by decide)]
          obtain ⟨s', hrest⟩ := ih (s := s.tick.put (2 + i) (s.gpt.arraySector i))
            (i := i + 1) hs
          refine ⟨s', hrest.trans ?_⟩
          congr 2
          refine if_congr ?_ rfl rfl
          constructor
          · intro hall k hk
            cases k with
            | zero => simpa using hfault
            | succ k =>
                have hnext := hall k (by omega)
                rwa [show 2 + (i + 1) + k = 2 + i + (k + 1) by omega] at hnext
          · intro hall k hk
            have hnext := hall (k + 1) (by omega)
            rwa [show 2 + i + (k + 1) = 2 + (i + 1) + k by omega] at hnext

theorem storeTable_status (s : System) :
    ∃ s', storeTable s =
      some (if TakesTable s.device then 0 else -1, s') := by
  unfold storeTable
  rw [Program.bind_of_some (modifyGpt_apply Statics.sealTable s),
    Program.bind_of_some (show getGpt { s with gpt := s.gpt.sealTable } =
      some (s.gpt.sealTable, { s with gpt := s.gpt.sealTable }) from rfl)]
  by_cases hs : (s.device.sataPresent || s.device.msPresent) = true
  swap
  · have hwrite : blockWriteSector 1 s.gpt.sealTable.headerSector
        { s with gpt := s.gpt.sealTable } =
          some (-1, { s with gpt := s.gpt.sealTable }) := by
      unfold blockWriteSector
      rw [Program.get_bind, if_neg hs]
      rfl
    rw [Program.bind_of_some hwrite, if_pos (by decide), if_neg fun h => hs h.1]
    exact ⟨_, rfl⟩
  · have hwrite := blockWriteSector_present 1
      (s := { s with gpt := s.gpt.sealTable }) hs s.gpt.sealTable.headerSector
    cases hfault : s.device.faults 0 1 with
    | true =>
        rw [hfault, if_pos rfl] at hwrite
        rw [Program.bind_of_some hwrite, if_pos (by decide), if_neg]
        · exact ⟨_, rfl⟩
        · rintro ⟨-, hall⟩
          rw [hall 0 (by decide)] at hfault
          cases hfault
    | false =>
        rw [hfault, if_neg (by decide)] at hwrite
        rw [Program.bind_of_some hwrite, if_neg (by decide)]
        obtain ⟨s', harray⟩ := storeArray_present (i := 0)
          ((maxPartitions * 128 + 511) / 512) (s := System.put (System.tick
            { s with gpt := s.gpt.sealTable }) 1 s.gpt.sealTable.headerSector) hs
        refine ⟨s', harray.trans ?_⟩
        congr 2
        refine if_congr ?_ rfl rfl
        constructor
        · intro hall
          refine ⟨hs, fun i hi => ?_⟩
          cases i with
          | zero => exact hfault
          | succ i =>
              have hnext := hall i (by change i < 32; omega)
              rwa [show 2 + 0 + i = 1 + (i + 1) by omega] at hnext
        · rintro ⟨-, hall⟩ k hk
          have hnext := hall (k + 1) (by change k < 32 at hk; omega)
          rwa [show 1 + (k + 1) = 2 + 0 + k by omega] at hnext

/-! ## What a caller sees of the table -/

/-- The two tables differ in one slot, which is free in both. -/
structure SpareSlot (slot : Fin 128) (g g' : Statics) : Prop where
  initialized : g.initialized = g'.initialized
  behind : g.behindPartitions = g'.behindPartitions
  others : ∀ i, i ≠ slot → g.partitions i = g'.partitions i
  free : (g.partitions slot).typeGuid.IsZero
  free' : (g'.partitions slot).typeGuid.IsZero

section SpareSlot

variable {slot : Fin 128} {g g' : Statics} (h : SpareSlot slot g g')

include h

theorem SpareSlot.partitionBytes_eq {k : Nat} (hk : k / 128 ≠ slot) :
    g.partitionBytes k = g'.partitionBytes k := by
  unfold Statics.partitionBytes
  split
  · rw [h.others]
    intro heq
    exact hk (congrArg Fin.val heq)
  · rw [h.behind]

omit h in
private theorem partitionBytes_free {g : Statics} {slot : Fin 128}
    (hfree : (g.partitions slot).typeGuid.IsZero) {k : Nat} (hk : k < 16) :
    g.partitionBytes (128 * slot + k) = 0 := by
  rw [g.partitionBytes_entry slot (by omega), Entry.toBytes, if_pos hk]
  exact hfree _

theorem SpareSlot.nameUnits_next {index : Nat} (hnext : index + 1 = slot) :
    g.nameUnits index 36 = 0 ∧ g'.nameUnits index 36 = 0 := by
  have hzero : ∀ {g : Statics}, (g.partitions slot).typeGuid.IsZero →
      g.nameUnits index 36 = 0 := by
    intro g hfree
    have hread : readLe g.partitionBytes (128 * index + 56 + 2 * 36) 2 =
        0 % 256 ^ 2 := by
      apply readLe_of_bytes
      intro j hj
      rw [show 128 * index + 56 + 2 * 36 + j = 128 * slot + j by omega,
        partitionBytes_free hfree (by omega)]
      simp [byteOf]
    rw [Statics.nameUnits, hread]
    rfl
  exact ⟨hzero h.free, hzero h.free'⟩

theorem SpareSlot.nameUnits_eq {index k : Nat} (hindex : index ≠ slot)
    (hk : k < 72) (hbefore : ∀ j < k, g.nameUnits index j ≠ 0) :
    g.nameUnits index k = g'.nameUnits index k := by
  by_cases hnext : index + 1 = slot
  · obtain ⟨hzero, hzero'⟩ := h.nameUnits_next hnext
    rcases Nat.lt_trichotomy k 36 with hlow | rfl | hhigh
    · unfold Statics.nameUnits
      rw [readLe_congr]
      intro j hj
      exact h.partitionBytes_eq (by omega)
    · rw [hzero, hzero']
    · exact absurd hzero (hbefore 36 hhigh)
  · unfold Statics.nameUnits
    rw [readLe_congr]
    intro j hj
    exact h.partitionBytes_eq (by omega)

theorem SpareSlot.partitionInfo_eq (index : UInt32)
    (info : Option PartitionInfo) :
    g.partitionInfo index info = g'.partitionInfo index info := by
  cases info with
  | none => rfl
  | some info =>
      simp only [Statics.partitionInfo, ← h.initialized]
      by_cases hrefuse : ((!g.initialized) = true ∨ index.toNat ≥ maxPartitions)
      · rw [if_pos hrefuse, if_pos hrefuse]
      · rw [if_neg hrefuse, if_neg hrefuse]
        have hindex : index.toNat < 128 := by
          rw [not_or] at hrefuse
          simpa [maxPartitions] using hrefuse.2
        by_cases hslot : Fin.ofNat 128 index.toNat = slot
        · rw [hslot, if_pos h.free, if_pos h.free']
        · rw [← h.others _ hslot]
          have hother : index.toNat ≠ slot := by
            intro heq
            apply hslot
            rw [heq]
            exact Fin.ofNat_val_eq_self slot
          have hname := utf16leToUtf8_agree 72 0 (fun k _ hk hbefore =>
            h.nameUnits_eq hother (k := k) (by simpa using hk)
              fun j hj => hbefore j (Nat.zero_le j) hj) info.name
          rw [hname]

end SpareSlot

/-! ## Failed edits -/

/-- Every call that reads the table gives what it gave, and so does the header. -/
structure TableKept (s s' : System) : Prop where
  partition : ∀ index info, SameResult (gptGetPartition index info) s s'
  header : s'.gpt.header = s.gpt.header

theorem gptGetPartition_apply (s : System) (index : UInt32)
    (info : Option PartitionInfo) :
    gptGetPartition index info s = some (s.gpt.partitionInfo index info, s) := rfl

theorem sameResult_gptGetPartition_iff {s s' : System} {index : UInt32}
    {info : Option PartitionInfo} :
    SameResult (gptGetPartition index info) s s' ↔
      s.gpt.partitionInfo index info = s'.gpt.partitionInfo index info := by
  constructor
  · rintro ⟨a, ha, ha'⟩
    rw [← ha.unique ⟨_, gptGetPartition_apply s index info⟩,
      ← ha'.unique ⟨_, gptGetPartition_apply s' index info⟩]
  · intro hsame
    refine ⟨_, ⟨_, gptGetPartition_apply s index info⟩, ?_⟩
    rw [hsame]
    exact ⟨_, gptGetPartition_apply s' index info⟩

def Edit.Unseen (g : Statics) : Edit → Prop
  | .add _ _ typeGuid _ => typeGuid.IsZero
  | .delete index => (g.partitions (Fin.ofNat 128 index.toNat)).typeGuid.IsZero

theorem Edit.Effect.unique {g : Statics} {edit : Edit}
    {f f' : Statics → Statics} (h : edit.Effect g f) (h' : edit.Effect g f') :
    f = f' := by
  cases h with
  | add hslot _ =>
      obtain ⟨hslot', _⟩ := h'
      rw [hslot] at hslot'
      cases hslot'
      rfl
  | delete _ =>
      cases h'
      rfl

theorem Edit.Effect.spareSlot {g : Statics} {edit : Edit}
    {f : Statics → Statics} (h : edit.Effect g f) (hunseen : edit.Unseen g) :
    ∃ slot, SpareSlot slot g (f g) := by
  cases h with
  | @add firstLba lastLba typeGuid name slot hslot _ =>
      refine ⟨Fin.ofNat 128 slot, rfl, rfl, fun i hi => ?_, ?_, ?_⟩
      · exact (Function.update_of_ne hi _ _).symm
      · exact (lowestFree_of_find hslot).free
      · rw [Edit.Unseen] at hunseen
        simpa only [Statics.addEntry, Function.update_self, Entry.fill]
          using hunseen
  | @delete index _ =>
      refine ⟨Fin.ofNat 128 index.toNat, rfl, rfl, fun i hi => ?_, hunseen, ?_⟩
      · exact (Function.update_of_ne hi _ _).symm
      · simp [Statics.clearEntry, Entry.zero, Guid.IsZero]

theorem Statics.partitionInfo_status {g : Statics} {index : UInt32}
    (hinit : g.initialized = true) (hindex : index.toNat < maxPartitions)
    (info : PartitionInfo) :
    (g.partitionInfo index (some info)).1 =
      if (g.partitions (Fin.ofNat 128 index.toNat)).typeGuid.IsZero then -1
      else 0 := by
  simp only [Statics.partitionInfo]
  rw [if_neg (by simp [hinit, hindex])]
  split
  · rfl
  · rfl

/-- An edit that fills or empties a slot shows in the slot's own record. -/
theorem Edit.Effect.exists_change {g : Statics} {edit : Edit}
    {f : Statics → Statics} (h : edit.Effect g f)
    (hinit : g.initialized = true) (hseen : ¬ edit.Unseen g)
    (info : PartitionInfo) :
    ∃ index, (g.partitionInfo index (some info)).1 ≠
      ((f g).sealTable.partitionInfo index (some info)).1 := by
  have hinit' : (f g).sealTable.initialized = true := by
    rw [Statics.sealTable_initialized, h.initialized_eq, hinit]
  cases h with
  | @add firstLba lastLba typeGuid name slot hslot _ =>
      have hlowest := lowestFree_of_find hslot
      have hval : (UInt32.ofNat slot).toNat = slot := by
        have hlt := hlowest.lt
        change slot < 128 at hlt
        simp [UInt32.toNat_ofNat']
        omega
      refine ⟨UInt32.ofNat slot, ?_⟩
      rw [Statics.partitionInfo_status hinit (by rw [hval]; exact hlowest.lt),
        Statics.partitionInfo_status hinit' (by rw [hval]; exact hlowest.lt),
        hval, if_pos hlowest.free, Statics.sealTable_partitions, if_neg]
      · decide
      · rw [Edit.Unseen] at hseen
        simpa only [Statics.addEntry, Function.update_self, Entry.fill]
          using hseen
  | @delete index hindex =>
      rw [Edit.Unseen] at hseen
      refine ⟨index, ?_⟩
      rw [Statics.partitionInfo_status hinit hindex,
        Statics.partitionInfo_status hinit' hindex, if_neg hseen,
        Statics.sealTable_partitions, if_pos]
      · decide
      · simp [Statics.clearEntry, Entry.zero, Guid.IsZero]

/-- A cleared record for `gpt_get_partition` to fill. -/
def PartitionInfo.zero : PartitionInfo where
  typeGuid := fun _ => 0
  partitionGuid := fun _ => 0
  firstLba := 0
  lastLba := 0
  attributes := 0
  name := fun _ => 0
  valid := 0

theorem tableKept_iff {s s' : System} {edit : Edit} {f : Statics → Statics}
    (heffect : edit.Effect s.gpt f) (hinit : s.gpt.initialized = true)
    (hgpt : s'.gpt = (f s.gpt).sealTable) :
    TableKept s s' ↔
      edit.Unseen s.gpt ∧ (f s.gpt).sealTable.header = s.gpt.header := by
  constructor
  · rintro ⟨hpartition, hheader⟩
    rw [hgpt] at hheader
    refine ⟨?_, hheader⟩
    by_contra hseen
    obtain ⟨index, hne⟩ := heffect.exists_change hinit hseen PartitionInfo.zero
    have hsame := sameResult_gptGetPartition_iff.mp
      (hpartition index (some PartitionInfo.zero))
    rw [hgpt] at hsame
    exact hne (congrArg Prod.fst hsame)
  · rintro ⟨hunseen, hheader⟩
    rw [← hgpt] at hheader
    refine ⟨fun index info => ?_, hheader⟩
    obtain ⟨slot, hspare⟩ := heffect.spareSlot hunseen
    have hsealed : SpareSlot slot s.gpt s'.gpt := by
      rw [hgpt]
      constructor
      case initialized => rw [Statics.sealTable_initialized, hspare.initialized]
      case behind => rw [Statics.sealTable_behindPartitions, hspare.behind]
      case others => simpa using hspare.others
      case free => exact hspare.free
      case free' => simpa using hspare.free'
    exact sameResult_gptGetPartition_iff.mpr (hsealed.partitionInfo_eq index info)

/--
A failed edit leaves the table as it was exactly where no change was under way,
or where the change is none: the slot is as free as before and both checksums
come out as they were.
-/
theorem failed_edit_keeps_table_iff (edit : Edit) {s : System}
    (hinit : s.gpt.initialized = true) :
    ∃ status s', edit.run s = some (status, s') ∧
      ((status = -1 → TableKept s s') ↔
        (TakesTable s.device ∨ ∀ f, edit.Effect s.gpt f →
          edit.Unseen s.gpt ∧ (f s.gpt).sealTable.header = s.gpt.header)) := by
  rcases edit.run_cases hinit with ⟨hnone, hrun⟩ | ⟨f, heffect, hrun⟩
  · refine ⟨-1, s, hrun, fun _ => .inr fun f hf => absurd hf (hnone f), ?_⟩
    exact fun _ _ => ⟨fun _ _ => sameResult_gptGetPartition_iff.mpr rfl, rfl⟩
  · obtain ⟨s', hstore⟩ := storeTable_status { s with gpt := f s.gpt }
    have hgpt : s'.gpt = (f s.gpt).sealTable := storeTable_gpt hstore
    have hkept := tableKept_iff heffect hinit hgpt
    have hall : (∀ f', edit.Effect s.gpt f' → edit.Unseen s.gpt ∧
        (f' s.gpt).sealTable.header = s.gpt.header) ↔ TableKept s s' := by
      rw [hkept]
      refine ⟨fun hevery => hevery f heffect, fun hone f' heffect' => ?_⟩
      rw [heffect'.unique heffect]
      exact hone
    refine ⟨_, s', hrun.trans hstore, ?_⟩
    rw [hall]
    by_cases htakes : TakesTable s.device
    · simp [htakes]
    · simp [htakes]

def worn (s : System) : System :=
  { s with device := { s.device with faults := fun _ _ => true } }

theorem worn_not_takesTable (s : System) : ¬ TakesTable (worn s).device := by
  rintro ⟨-, hall⟩
  cases hall 0 (by decide)

/-- The partition of a failed addition stays in memory. -/
theorem failed_add_changes_table :
    ∃ created s',
      gptCreateTable 100 none (System.startup fun _ => Sector.zero) =
        some (0, created) ∧
      gptAddPartition 34 40 efiSystemType none (worn created) = some (-1, s') ∧
      ¬ TableKept (worn created) s' := by
  obtain ⟨created, hcreate, hcreated⟩ := exists_create
    (System.startup_faultFree fun _ => Sector.zero) 100 none
  have hgpt : (worn created).gpt = _ := hcreated.2.1
  have hinit : (worn created).gpt.initialized = true := by
    rw [hgpt]
    rfl
  have hslot := Image.create_findFreeSlot 100 none
    (System.image (System.startup fun _ => Sector.zero))
  have hadmits := (Image.create_admits 100 none
    (System.image (System.startup fun _ => Sector.zero))).mpr
    (show (34 : UInt64) ≤ 34 ∧ (34 : UInt64) < 40 ∧ (40 : UInt64) ≤ 100 - 34 by decide)
  rw [← hgpt] at hslot hadmits
  rcases (Edit.add 34 40 efiSystemType none).run_cases hinit with
    ⟨hnone, -⟩ | ⟨f, heffect, hrun⟩
  · exact absurd (.add hslot hadmits) (hnone _)
  · obtain ⟨s', hstore⟩ := storeTable_status
      { (worn created) with gpt := f (worn created).gpt }
    have hgpt' := storeTable_gpt hstore
    rw [if_neg (worn_not_takesTable created)] at hstore
    refine ⟨created, s', hcreate, hrun.trans hstore, fun hkept => ?_⟩
    have hunseen := ((tableKept_iff heffect hinit hgpt').mp hkept).1
    exact efiSystemType_not_zero hunseen

/-- A range below the usable part is refused with the table as it was. -/
theorem refused_add_keeps_table :
    ∃ created status s', (worn created).gpt.initialized = true ∧
      (Edit.add 10 40 efiSystemType none).run (worn created) =
        some (status, s') ∧
      (status = -1 → TableKept (worn created) s') := by
  obtain ⟨created, -, hcreated⟩ := exists_create
    (System.startup_faultFree fun _ => Sector.zero) 100 none
  have hgpt : (worn created).gpt = _ := hcreated.2.1
  have hinit : (worn created).gpt.initialized = true := by
    rw [hgpt]
    rfl
  obtain ⟨status, s', hrun, hiff⟩ := failed_edit_keeps_table_iff
    (.add 10 40 efiSystemType none) hinit
  refine ⟨created, status, s', hinit, hrun, hiff.mpr (.inr ?_)⟩
  rintro f ⟨-, hadmits⟩
  rw [hgpt, Image.create_admits] at hadmits
  exact absurd hadmits.1 (by decide)

end EntropyOS.Gpt
