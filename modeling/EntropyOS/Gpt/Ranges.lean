import EntropyOS.Gpt.Table

/-!
# The ranges of partitions

The range test of `gpt_add_partition` keeps every partition inside the usable
part of the disk.  It does not look at the other partitions, so keeping ranges
apart is left to the callers.  Everything here is about the array in memory and
holds whether or not the transfers behind it succeed.
-/

namespace EntropyOS.Gpt

open EntropyOS.Foundation

/-! ## What the calls do to memory -/

theorem storeArray_transfers (count i : Nat) :
    Within Transfers (storeArray count i) := by
  induction count generalizing i with
  | zero => exact Within.pure 0
  | succ count ih =>
      refine Within.bind (Within.bind Within.get fun _ => Within.pure _) fun g => ?_
      refine Within.bind (blockWriteSector_transfers _ _) fun status => ?_
      exact Within.ite (Within.pure _) (ih _)

theorem storeTable_gpt {s s' : System} {status : Int}
    (h : storeTable s = some (status, s')) : s'.gpt = s.gpt.sealTable := by
  unfold storeTable at h
  have hseal : modifyGpt Statics.sealTable s =
      some ((), { s with gpt := s.gpt.sealTable }) := rfl
  rw [Program.bind_of_some hseal] at h
  have hrest : Within Transfers (do
      let g ← getGpt
      if (← blockWriteSector 1 g.headerSector) ≠ 0 then
        return -1
      storeArray ((maxPartitions * 128 + 511) / 512) 0) := by
    refine Within.bind (Within.bind Within.get fun _ => Within.pure _) fun g => ?_
    refine Within.bind (blockWriteSector_transfers _ _) fun _ => ?_
    exact Within.ite (Within.pure _) (storeArray_transfers _ _)
  exact (hrest _ _ _ h).gpt

theorem modifyGpt_apply (f : Statics → Statics) (s : System) :
    modifyGpt f s = some ((), { s with gpt := f s.gpt }) := rfl

/-- An edit is refused, or it changes the table in memory and stores it. -/
theorem Edit.run_cases (edit : Edit) {s : System}
    (hinit : s.gpt.initialized = true) :
    ((∀ f, ¬ edit.Effect s.gpt f) ∧ edit.run s = some (-1, s)) ∨
    ∃ f, edit.Effect s.gpt f ∧
      edit.run s = storeTable { s with gpt := f s.gpt } := by
  cases edit with
  | add firstLba lastLba typeGuid name =>
      simp only [run, gptAddPartition]
      rw [Program.bind_of_some (getGpt_apply s), if_pos hinit]
      cases hslot : findFreeSlot s.gpt.partitions maxPartitions 0 with
      | none =>
          refine .inl ⟨?_, rfl⟩
          rintro f ⟨hfound, -⟩
          simp [hslot] at hfound
      | some slot =>
          simp only
          split_ifs with hrange
          · refine .inl ⟨?_, rfl⟩
            rintro f ⟨-, hadmits⟩
            exact (Header.admits_iff _ _ _).mp hadmits hrange
          · have hadmits := (Header.admits_iff _ _ _).mpr hrange
            exact .inr ⟨_, .add hslot hadmits, Program.bind_of_some
              (modifyGpt_apply _ s)⟩
  | delete index =>
      simp only [run, gptDeletePartition]
      rw [Program.bind_of_some (getGpt_apply s)]
      split_ifs with hrefuse
      · refine .inl ⟨?_, rfl⟩
        rintro f ⟨hindex⟩
        simp [hinit] at hrefuse
        omega
      · have hindex : index.toNat < maxPartitions := by
          simpa using (not_or.mp hrefuse).2
        exact .inr ⟨_, .delete hindex, Program.bind_of_some
          (modifyGpt_apply _ s)⟩

theorem Edit.run_uninitialized (edit : Edit) {s : System}
    (hinit : ¬ s.gpt.initialized = true) : edit.run s = some (-1, s) := by
  cases edit with
  | add firstLba lastLba typeGuid name =>
      simp only [run, gptAddPartition]
      rw [Program.bind_of_some (getGpt_apply s), if_neg hinit]
      rfl
  | delete index =>
      simp only [run, gptDeletePartition]
      rw [Program.bind_of_some (getGpt_apply s), if_pos (.inl (by simp [hinit]))]
      rfl

/-- Any call, successful or not, leaves memory alone or stores its effect. -/
theorem Edit.gpt_of_run {edit : Edit} {s s' : System} {status : Int}
    (h : edit.run s = some (status, s')) :
    s'.gpt = s.gpt ∨
      ∃ f, edit.Effect s.gpt f ∧ s'.gpt = (f s.gpt).sealTable := by
  by_cases hinit : s.gpt.initialized = true
  · rcases edit.run_cases hinit with ⟨-, hrefuse⟩ | ⟨f, heffect, hstore⟩
    · rw [hrefuse] at h
      cases h
      exact .inl rfl
    · rw [hstore] at h
      exact .inr ⟨f, heffect, storeTable_gpt h⟩
  · rw [edit.run_uninitialized hinit] at h
    cases h
    exact .inl rfl

/-! ## The invariants -/

/-- The usable part of the disk is that of a table with `totalSectors`. -/
structure Header.Usable (header : Header) (totalSectors : UInt64) : Prop where
  first : header.firstUsableLba = 34
  last : header.lastUsableLba = totalSectors - 34

theorem Header.Usable.sealCrc {header : Header} {totalSectors : UInt64}
    (h : header.Usable totalSectors) : header.sealCrc.Usable totalSectors := by
  cases header
  exact ⟨h.first, h.last⟩

theorem Header.Usable.sealTable {g : Statics} {totalSectors : UInt64}
    (h : g.header.Usable totalSectors) :
    g.sealTable.header.Usable totalSectors := by
  rw [Statics.sealTable_header]
  exact Header.Usable.sealCrc ⟨h.first, h.last⟩

theorem usable_of_create {s s' : System} {totalSectors : UInt64}
    {diskGuid : Option Guid}
    (h : gptCreateTable totalSectors diskGuid s = some (0, s')) :
    s'.gpt.header.Usable totalSectors ∧
      ∀ i, s'.gpt.partitions i = Entry.zero := by
  unfold gptCreateTable at h
  obtain ⟨present, s₁, -, h⟩ := Program.exists_of_bind h
  split_ifs at h with hpresent
  swap
  · cases h
  obtain ⟨mbr, s₂, -, h⟩ := Program.exists_of_bind h
  split_ifs at h with hmbr
  · cases h
  obtain ⟨_, s₃, hstart, h⟩ := Program.exists_of_bind h
  cases hstart
  obtain ⟨stored, s₄, hstore, h⟩ := Program.exists_of_bind h
  have hgpt := storeTable_gpt hstore
  split_ifs at h with hstored
  · cases h
  obtain ⟨_, s₅, hbackup, h⟩ := Program.exists_of_bind h
  cases hbackup
  obtain ⟨backup, s₆, hget, h⟩ := Program.exists_of_bind h
  cases hget
  obtain ⟨_, s₇, hwrite, h⟩ := Program.exists_of_bind h
  have hkept := (blockWriteSector_transfers _ _ _ _ _ hwrite).gpt
  obtain ⟨_, s₈, hprimary, h⟩ := Program.exists_of_bind h
  cases hprimary
  cases h
  have hstored : s₄.gpt.header.Usable totalSectors := by
    rw [hgpt]
    apply Header.Usable.sealTable
    simp only [startTable_header]
    exact ⟨rfl, rfl⟩
  have hbackup : s₇.gpt.header.Usable totalSectors := by
    rw [hkept]
    exact Header.Usable.sealCrc ⟨hstored.first, hstored.last⟩
  refine ⟨⟨hbackup.first, hbackup.last⟩, fun i => ?_⟩
  change s₇.gpt.partitions i = _
  rw [hkept]
  change s₄.gpt.partitions i = _
  rw [hgpt, Statics.sealTable_partitions]
  exact startTable_partitions totalSectors diskGuid _ i

def Entry.InUse (entry : Entry) : Prop := ¬ entry.typeGuid.IsZero

def Statics.InRange (g : Statics) : Prop :=
  ∀ i, (g.partitions i).InUse →
    g.header.Admits (g.partitions i).firstLba (g.partitions i).lastLba

def Entry.Apart (entry entry' : Entry) : Prop :=
  entry.lastLba < entry'.firstLba ∨ entry'.lastLba < entry.firstLba

def Statics.Disjoint (g : Statics) : Prop :=
  ∀ i j, i ≠ j → (g.partitions i).InUse → (g.partitions j).InUse →
    (g.partitions i).Apart (g.partitions j)

/-- An addition stays clear of the partitions that are there. -/
def Edit.Clear (g : Statics) : Edit → Prop
  | .add firstLba lastLba _ _ => ∀ i, (g.partitions i).InUse →
      lastLba < (g.partitions i).firstLba ∨ (g.partitions i).lastLba < firstLba
  | .delete _ => True

/-- Calls with any outcome, each allowed by `ok` in the state it is made in. -/
inductive Calls (ok : Statics → Edit → Prop) (start : System) :
    List Edit → System → Prop
  | start : Calls ok start [] start
  | call {edits : List Edit} {s s' : System} {edit : Edit} {status : Int} :
      Calls ok start edits s → ok s.gpt edit →
        edit.run s = some (status, s') → Calls ok start (edits ++ [edit]) s'

/-- What holds after one call holds after all of them. -/
theorem Calls.invariant {ok : Statics → Edit → Prop} {P : Statics → Prop}
    {start s : System} {edits : List Edit} (h : Calls ok start edits s)
    (hstart : P start.gpt)
    (hstep : ∀ g edit f, P g → ok g edit → edit.Effect g f → P (f g).sealTable) :
    P s.gpt := by
  induction h with
  | start => exact hstart
  | call _ hok hrun ih =>
      rcases Edit.gpt_of_run hrun with hsame | ⟨f, heffect, hgpt⟩
      · rwa [hsame]
      · rw [hgpt]
        exact hstep _ _ f ih hok heffect

/-! ## One call -/

theorem Header.admits_sealTable (g : Statics) (firstLba lastLba : UInt64) :
    g.sealTable.header.Admits firstLba lastLba ↔
      g.header.Admits firstLba lastLba := by
  rw [Statics.sealTable_header]
  cases g.header
  exact Iff.rfl

theorem Entry.zero_not_inUse : ¬ Entry.zero.InUse := fun h => h fun _ => rfl

/-- After a call a slot is as before, is free, or holds the new range. -/
theorem Edit.Effect.partitions_cases {g : Statics} {edit : Edit}
    {f : Statics → Statics} (h : edit.Effect g f) :
    (∃ firstLba lastLba typeGuid name slot,
      edit = .add firstLba lastLba typeGuid name ∧
      g.header.Admits firstLba lastLba ∧
      ((f g).partitions slot).firstLba = firstLba ∧
      ((f g).partitions slot).lastLba = lastLba ∧
      ∀ i, i ≠ slot → (f g).partitions i = g.partitions i) ∨
    (∃ slot, (f g).partitions slot = Entry.zero ∧
      ∀ i, i ≠ slot → (f g).partitions i = g.partitions i) := by
  cases h with
  | @add firstLba lastLba typeGuid name slot _ hadmits =>
      refine .inl ⟨firstLba, lastLba, typeGuid, name, Fin.ofNat 128 slot, rfl,
        hadmits, ?_, ?_, fun i hi => Function.update_of_ne hi _ _⟩
      · simp only [Statics.addEntry, Function.update_self, Entry.fill]
      · simp only [Statics.addEntry, Function.update_self, Entry.fill]
  | @delete index _ =>
      exact .inr ⟨Fin.ofNat 128 index.toNat, Function.update_self _ _ _,
        fun i hi => Function.update_of_ne hi _ _⟩

theorem Statics.InRange.step {g : Statics} {edit : Edit}
    {f : Statics → Statics} (h : g.InRange) (heffect : edit.Effect g f) :
    (f g).sealTable.InRange := by
  have hrange : ∀ i, ((f g).partitions i).InUse → g.header.Admits
      ((f g).partitions i).firstLba ((f g).partitions i).lastLba := by
    intro i hi
    rcases heffect.partitions_cases with
      ⟨firstLba, lastLba, typeGuid, name, slot, -, hadmits, hfirst, hlast, hother⟩ |
      ⟨slot, hzero, hother⟩
    · by_cases hslot : i = slot
      · rw [hslot, hfirst, hlast]
        exact hadmits
      · rw [hother i hslot] at hi ⊢
        exact h i hi
    · by_cases hslot : i = slot
      · rw [hslot, hzero] at hi
        exact absurd hi Entry.zero_not_inUse
      · rw [hother i hslot] at hi ⊢
        exact h i hi
  intro i hi
  rw [Statics.sealTable_partitions] at hi ⊢
  rw [Header.admits_sealTable, heffect.header_eq]
  exact hrange i hi

theorem Entry.Apart.symm {entry entry' : Entry} (h : entry.Apart entry') :
    entry'.Apart entry := Or.symm h

theorem Statics.Disjoint.step {g : Statics} {edit : Edit}
    {f : Statics → Statics} (h : g.Disjoint) (hclear : edit.Clear g)
    (heffect : edit.Effect g f) : (f g).sealTable.Disjoint := by
  intro i j hij
  rw [Statics.sealTable_partitions]
  intro hi hj
  rcases heffect.partitions_cases with
    ⟨firstLba, lastLba, typeGuid, name, slot, rfl, -, hfirst, hlast, hother⟩ |
    ⟨slot, hzero, hother⟩
  · have hnew : ∀ k, k ≠ slot → ((f g).partitions k).InUse →
        ((f g).partitions slot).Apart ((f g).partitions k) := by
      intro k hk hinUse
      rw [hother k hk] at hinUse
      unfold Entry.Apart
      rw [hother k hk, hfirst, hlast]
      exact hclear k hinUse
    by_cases hslot : i = slot
    · subst hslot
      exact hnew j (Ne.symm hij) hj
    · by_cases hslot' : j = slot
      · subst hslot'
        exact (hnew i hslot hi).symm
      · rw [hother i hslot] at hi ⊢
        rw [hother j hslot'] at hj ⊢
        exact h i j hij hi hj
  · have hkept : ∀ k, ((f g).partitions k).InUse → k ≠ slot := by
      intro k hk heq
      rw [heq, hzero] at hk
      exact Entry.zero_not_inUse hk
    have hsame := hother i (hkept i hi)
    have hsame' := hother j (hkept j hj)
    rw [hsame] at hi ⊢
    rw [hsame'] at hj ⊢
    exact h i j hij hi hj

/-! ## All calls -/

/--
Whatever is called and whatever the calls return, every partition lies in the
usable range; and partitions are disjoint as long as every addition is clear of
those present when it is made.
-/
theorem partition_ranges {s created : System} {totalSectors : UInt64}
    {diskGuid : Option Guid}
    (hcreate : gptCreateTable totalSectors diskGuid s = some (0, created)) :
    (∀ edits s', Calls (fun _ _ => True) created edits s' →
      s'.gpt.header.Usable totalSectors ∧ s'.gpt.InRange) ∧
    (∀ edits s', Calls Edit.Clear created edits s' → s'.gpt.Disjoint) := by
  obtain ⟨husable, hempty⟩ := usable_of_create hcreate
  have hfree : ∀ i, ¬ (created.gpt.partitions i).InUse := by
    intro i
    rw [hempty i]
    exact Entry.zero_not_inUse
  refine ⟨fun edits s' hcalls => ?_, fun edits s' hcalls => ?_⟩
  · refine hcalls.invariant
      (P := fun g => g.header.Usable totalSectors ∧ g.InRange)
      ⟨husable, fun i hi => absurd hi (hfree i)⟩ ?_
    rintro g edit f ⟨hheader, hrange⟩ - heffect
    refine ⟨Header.Usable.sealTable ?_, hrange.step heffect⟩
    rw [heffect.header_eq]
    exact hheader
  · refine hcalls.invariant (fun i _ _ hi => absurd hi (hfree i)) ?_
    intro g edit f hdisjoint hclear heffect
    exact hdisjoint.step hclear heffect

/-- The same range can be added twice. -/
theorem overlapping_partitions_accepted :
    ∃ created s',
      gptCreateTable 100 none (System.startup fun _ => Sector.zero) =
        some (0, created) ∧
      Calls (fun _ _ => True) created
        [.add 34 40 efiSystemType none, .add 34 40 efiSystemType none] s' ∧
      ¬ s'.gpt.Disjoint := by
  have hs := System.startup_faultFree fun _ => Sector.zero
  obtain ⟨created, once, twice, hcreate, hadd, hadd', -, hholds, hkept, hholds'⟩ :=
    exists_create_two hs 100 none 34 40 34 40 (by decide) (by decide)
      (by decide) (by decide) (by decide) (by decide) efiSystemType_not_zero
      efiSystemType none none
  refine ⟨created, twice, hcreate,
    .call (.call .start trivial hadd) trivial hadd', fun hdisjoint => ?_⟩
  rw [← hkept] at hholds
  have hapart := hdisjoint 0 1 (by decide)
    (by rw [Entry.InUse, hholds.typeGuid]; exact efiSystemType_not_zero)
    (by rw [Entry.InUse, hholds'.typeGuid]; exact efiSystemType_not_zero)
  rw [Entry.Apart, hholds.firstLba, hholds.lastLba, hholds'.firstLba,
    hholds'.lastLba] at hapart
  exact absurd hapart (by decide)

theorem neighbours_disjoint :
    ∃ created s',
      gptCreateTable 100 none (System.startup fun _ => Sector.zero) =
        some (0, created) ∧
      Calls Edit.Clear created
        [.add 34 40 efiSystemType none, .add 41 50 efiSystemType none] s' ∧
      s'.gpt.InRange ∧ s'.gpt.Disjoint := by
  have hs := System.startup_faultFree fun _ => Sector.zero
  obtain ⟨created, once, twice, hcreate, hadd, hadd', hother, hholds, -, -⟩ :=
    exists_create_two hs 100 none 34 40 41 50 (by decide) (by decide)
      (by decide) (by decide) (by decide) (by decide) efiSystemType_not_zero
      efiSystemType none none
  obtain ⟨-, hempty⟩ := usable_of_create hcreate
  have hclear : Edit.Clear created.gpt (.add 34 40 efiSystemType none) := by
    intro i hi
    rw [hempty i] at hi
    exact absurd hi Entry.zero_not_inUse
  have hclear' : Edit.Clear once.gpt (.add 41 50 efiSystemType none) := by
    intro i hi
    by_cases hslot : i = 0
    · rw [hslot, hholds.lastLba]
      exact .inr (by decide)
    · rw [hother i hslot] at hi
      exact absurd hi Entry.zero_not_inUse
  have hranges := partition_ranges hcreate
  refine ⟨created, twice, hcreate,
    .call (.call .start hclear hadd) hclear' hadd', ?_, ?_⟩
  · exact (hranges.1 _ _ (.call (.call .start trivial hadd) trivial hadd')).2
  · exact hranges.2 _ _ (.call (.call .start hclear hadd) hclear' hadd')

end EntropyOS.Gpt
