import EntropyOS.Gpt.Guids
import EntropyOS.Gpt.Reload

/-!
# Identifiers over the lifetime of a disk

The machine may be restarted between the calls, and then `generate_guid`
begins again.  A ledger says which of its values the identifiers on the disk
are, counted since the start at which each was generated.
-/

namespace EntropyOS.Gpt

open EntropyOS.Foundation

inductive Action where
  | restart
  | create (totalSectors : UInt64) (diskGuid : Option Guid)
  | init
  | edit (change : Edit)

namespace Action

def run : Action → Program System Int
  | restart => do
      modify System.restart
      return 0
  | create totalSectors diskGuid => gptCreateTable totalSectors diskGuid
  | init => gptInit
  | .edit change => change.run

def generates : Action → Nat
  | create _ none => 1
  | .edit (.add ..) => 1
  | _ => 0

/--
Additions name a type; the backup header of a new table falls behind the
primary copy; and a disk GUID from the caller is not one that is generated.
-/
def Proper : Action → Prop
  | create totalSectors diskGuid => 34 ≤ (totalSectors - 1).toNat ∧
      ∀ guid, diskGuid = some guid → ∀ n < 10000, guid ≠ guidAt n
  | .edit change => change.Typed
  | _ => True

end Action

/-- For each identifier of the table, how many came before it since a start. -/
structure Ledger where
  generated : Nat
  disk : Option Nat
  slots : Fin 128 → Option Nat

namespace Ledger

def start : Ledger := ⟨0, none, fun _ => none⟩

def create (ledger : Ledger) : Option Guid → Ledger
  | none => ⟨ledger.generated + 1, some ledger.generated, fun _ => none⟩
  | some _ => ⟨ledger.generated, none, fun _ => none⟩

/-- An entry is added where there is a free slot. -/
def add (ledger : Ledger) : Option Nat → Ledger
  | none => ledger
  | some slot => {
      generated := ledger.generated + 1
      disk := ledger.disk
      slots := Function.update ledger.slots (Fin.ofNat 128 slot)
        (some ledger.generated) }

def delete (ledger : Ledger) (index : Nat) : Ledger :=
  { ledger with slots :=
    Function.update ledger.slots (Fin.ofNat 128 index) none }

/-- The ledger after an action that the module takes in the state `g`. -/
def next (ledger : Ledger) (g : Statics) : Action → Ledger
  | .restart => { ledger with generated := 0 }
  | .create _ diskGuid => ledger.create diskGuid
  | .init => ledger
  | .edit (.add ..) => ledger.add (findFreeSlot g.partitions maxPartitions 0)
  | .edit (.delete index) => ledger.delete index.toNat

/-- The next identifier to be generated is not on the disk. -/
def Unused (ledger : Ledger) : Prop :=
  ledger.disk ≠ some ledger.generated ∧
    ∀ i, ledger.slots i ≠ some ledger.generated

/-- No value of the generator is on the disk twice. -/
structure Distinct (ledger : Ledger) : Prop where
  slots : ∀ i j n, ledger.slots i = some n → ledger.slots j = some n → i = j
  disk : ∀ i n, ledger.slots i = some n → ledger.disk ≠ some n

end Ledger

/-- What an action needs, so that identifiers stay distinct. -/
def Action.Fresh (ledger : Ledger) : Action → Prop
  | .edit (.add ..) => ledger.Unused
  | _ => True

/--
A machine just started creates a table, and goes on with actions that all
return 0.
-/
inductive Lifetime (s : System) (totalSectors : UInt64)
    (diskGuid : Option Guid) : List Action → Ledger → System → Prop
  | create {s' : System} :
      gptCreateTable totalSectors diskGuid s = some (0, s') →
      Lifetime s totalSectors diskGuid [] (Ledger.start.create diskGuid) s'
  | act {actions : List Action} {action : Action} {ledger : Ledger}
      {s' s'' : System} :
      Lifetime s totalSectors diskGuid actions ledger s' →
      action.run s' = some (0, s'') →
      Lifetime s totalSectors diskGuid (actions ++ [action])
        (ledger.next s'.gpt action) s''

/-! ## Identifiers on the disk -/

/-- Entry `i` of the array that starts at sector 2. -/
def diskEntry (sectors : Nat → Sector) (i : Fin 128) : Entry :=
  Entry.ofBytes fun k => (sectors (2 + i / 4)).toBuf (i % 4 * 128 + k)

def diskGuidOf (sectors : Nat → Sector) : Guid :=
  (Header.ofBytes (sectors 1).toBuf).diskGuid

/-- The identifiers of partitions differ, also from that of the disk. -/
structure DistinctGuids (sectors : Nat → Sector) : Prop where
  partitions : ∀ i j, ¬ (diskEntry sectors i).typeGuid.IsZero →
    ¬ (diskEntry sectors j).typeGuid.IsZero →
    (diskEntry sectors i).partitionGuid =
      (diskEntry sectors j).partitionGuid → i = j
  disk : ∀ i, ¬ (diskEntry sectors i).typeGuid.IsZero →
    (diskEntry sectors i).partitionGuid ≠ diskGuidOf sectors

theorem Table.diskEntry_eq {totalSectors : UInt64} {guid : Guid}
    {old : Nat → Sector} {image : Image}
    (h : Table totalSectors guid old image) (i : Fin 128) :
    diskEntry image.disk i = image.statics.partitions i := by
  rw [diskEntry, h.diskArray _ (by omega), image.statics.ofBytes_arraySector i.isLt]
  exact congrArg image.statics.partitions (Fin.ofNat_val_eq_self i)

theorem Table.diskGuid_eq {totalSectors : UInt64} {guid : Guid}
    {old : Nat → Sector} {image : Image}
    (h : Table totalSectors guid old image) : diskGuidOf image.disk = guid := by
  rw [diskGuidOf, h.diskHeader, Statics.ofBytes_headerSector, h.sealTable_header]
  rfl

theorem Statics.partitionBytes_congr {g g' : Statics}
    (h : g.partitions = g'.partitions) {k : Nat} (hk : k < 16384) :
    g.partitionBytes k = g'.partitionBytes k := by
  simp only [Statics.partitionBytes, dif_pos hk, h]

/-- The memory that `gpt_init` brings back is a table again. -/
theorem Table.reload {totalSectors : UInt64} {guid : Guid}
    {old : Nat → Sector} {image : Image}
    (h : Table totalSectors guid old image) {memory : Statics}
    (hheader : memory.header = image.statics.sealTable.header)
    (hpartitions : memory.partitions = image.statics.partitions)
    (hinit : memory.initialized = true) :
    Table totalSectors guid old ⟨memory, image.disk⟩ := by
  have hcrc : memory.arrayCrc = image.statics.arrayCrc :=
    crc32_congr fun k hk => Statics.partitionBytes_congr hpartitions hk
  have hsealed : memory.sealTable.header = image.statics.sealTable.header := by
    rw [Statics.sealTable_header, hheader, hcrc, Statics.sealTable_header,
      Header.setArrayCrc_sealCrc]
  constructor
  case initialized => exact hinit
  case header =>
    rw [hheader, h.sealTable_header, hcrc]
    exact ⟨_, rfl⟩
  case diskHeader =>
    rw [h.diskHeader, Statics.headerSector, Statics.headerSector, hsealed]
  case diskArray =>
    intro i hi
    rw [h.diskArray i hi]
    funext k
    exact (Statics.partitionBytes_congr hpartitions (by omega)).symm
  case diskBackup => exact h.diskBackup
  case diskOther => exact h.diskOther

/-- The ledger is right about a table's identifiers. -/
structure Ledger.Describes (ledger : Ledger) (guid : Guid)
    (partitions : Fin 128 → Entry) : Prop where
  disk : ∀ n, ledger.disk = some n → n < 10000 ∧ guid = guidAt n
  foreign : ledger.disk = none → ∀ n < 10000, guid ≠ guidAt n
  free : ∀ i, ledger.slots i = none → (partitions i).typeGuid.IsZero
  used : ∀ i n, ledger.slots i = some n → n < 10000 ∧
    ¬ (partitions i).typeGuid.IsZero ∧ (partitions i).partitionGuid = guidAt n

theorem Ledger.Describes.distinct_iff {ledger : Ledger} {guid : Guid}
    {partitions : Fin 128 → Entry} (h : ledger.Describes guid partitions) :
    ledger.Distinct ↔
      (∀ i j, ¬ (partitions i).typeGuid.IsZero →
        ¬ (partitions j).typeGuid.IsZero →
        (partitions i).partitionGuid = (partitions j).partitionGuid → i = j) ∧
      ∀ i, ¬ (partitions i).typeGuid.IsZero →
        (partitions i).partitionGuid ≠ guid := by
  have hslot : ∀ i, ¬ (partitions i).typeGuid.IsZero →
      ∃ n, ledger.slots i = some n := by
    intro i hi
    cases hledger : ledger.slots i with
    | none => exact absurd (h.free i hledger) hi
    | some n => exact ⟨n, rfl⟩
  constructor
  · rintro ⟨hslots, hdisk⟩
    constructor
    · intro i j hi hj heq
      obtain ⟨m, hm⟩ := hslot i hi
      obtain ⟨n, hn⟩ := hslot j hj
      obtain ⟨hmlt, -, hmguid⟩ := h.used i m hm
      obtain ⟨hnlt, -, hnguid⟩ := h.used j n hn
      have hmn := guidAt_injective (by omega) (by omega)
        (hmguid.symm.trans (heq.trans hnguid))
      exact hslots i j n (hmn ▸ hm) hn
    · intro i hi heq
      obtain ⟨m, hm⟩ := hslot i hi
      obtain ⟨hmlt, -, hmguid⟩ := h.used i m hm
      cases hledger : ledger.disk with
      | none => exact h.foreign hledger m hmlt (heq.symm.trans hmguid)
      | some n =>
          obtain ⟨hnlt, hnguid⟩ := h.disk n hledger
          have hmn := guidAt_injective (by omega) (by omega)
            (hmguid.symm.trans (heq.trans hnguid))
          exact hdisk i m hm (hmn ▸ hledger)
  · rintro ⟨hpartitions, hguid⟩
    constructor
    · intro i j n hi hj
      obtain ⟨-, hiused, higuid⟩ := h.used i n hi
      obtain ⟨-, hjused, hjguid⟩ := h.used j n hj
      exact hpartitions i j hiused hjused (higuid.trans hjguid.symm)
    · intro i n hi hledger
      obtain ⟨-, hused, hused'⟩ := h.used i n hi
      exact hguid i hused (hused'.trans (h.disk n hledger).2.symm)

/--
The disk holds a table that the ledger describes, and so does the memory once
it is loaded.
-/
structure Ledger.Accounts (ledger : Ledger) (image : Image) : Prop where
  seed : image.statics.seed = seedAfter ledger.generated
  table : ∃ totalSectors guid old shadow, 34 ≤ (totalSectors - 1).toNat ∧
    Table totalSectors guid old ⟨shadow, image.disk⟩ ∧
    ledger.Describes guid shadow.partitions ∧
    (image.statics.initialized = true →
      Table totalSectors guid old image ∧
        image.statics.partitions = shadow.partitions)

theorem Ledger.Accounts.distinct_iff {ledger : Ledger} {image : Image}
    (h : ledger.Accounts image) :
    DistinctGuids image.disk ↔ ledger.Distinct := by
  obtain ⟨totalSectors, guid, old, shadow, -, htable, hdescribes, -⟩ := h.table
  have hentry := htable.diskEntry_eq
  have hguid := htable.diskGuid_eq
  rw [hdescribes.distinct_iff]
  constructor
  · rintro ⟨hpartitions, hdisk⟩
    simp only [hentry, hguid] at hpartitions hdisk
    exact ⟨hpartitions, hdisk⟩
  · rintro ⟨hpartitions, hdisk⟩
    constructor
    · simpa only [hentry] using hpartitions
    · simpa only [hentry, hguid] using hdisk

/-! ## Each action keeps the ledger right -/

section Actions

variable {ledger : Ledger} {image : Image}

theorem Ledger.Accounts.restart (h : ledger.Accounts image) :
    Ledger.Accounts { ledger with generated := 0 }
      ⟨Statics.startup, image.disk⟩ := by
  obtain ⟨totalSectors, guid, old, shadow, hlast, htable, hdescribes, -⟩ :=
    h.table
  refine ⟨rfl, totalSectors, guid, old, shadow, hlast, htable, ?_, ?_⟩
  · exact ⟨hdescribes.disk, hdescribes.foreign, hdescribes.free,
      hdescribes.used⟩
  · intro hinit
    exact absurd hinit Bool.false_ne_true

theorem Statics.sealTable_seed (g : Statics) : g.sealTable.seed = g.seed := by
  cases g
  rfl

theorem create_seed (ledger : Ledger) (hseed : image.statics.seed =
    seedAfter ledger.generated) (totalSectors : UInt64)
    (diskGuid : Option Guid) :
    (image.create totalSectors diskGuid).statics.seed =
      seedAfter (ledger.create diskGuid).generated := by
  simp only [Image.create, Image.withStatics, Image.put, Image.store_statics,
    Statics.sealTable_seed]
  cases diskGuid with
  | none =>
      simp only [Statics.startTable, Ledger.create, hseed,
        generateGuid_seedAfter]
  | some guid => exact hseed

/-- A new table, whatever the memory and the disk were. -/
theorem Ledger.create_accounts (hseed : image.statics.seed =
    seedAfter ledger.generated) {totalSectors : UInt64}
    {diskGuid : Option Guid}
    (hproper : (Action.create totalSectors diskGuid).Proper)
    (hgenerated : (ledger.create diskGuid).generated ≤ 10000) :
    (ledger.create diskGuid).Accounts (image.create totalSectors diskGuid) := by
  have htable := Image.create_table totalSectors diskGuid image hproper.1
  refine ⟨create_seed ledger hseed totalSectors diskGuid, totalSectors, _, _,
    (image.create totalSectors diskGuid).statics, hproper.1, htable, ?_,
    fun _ => ⟨htable, rfl⟩⟩
  have hzero := Image.create_partitions totalSectors diskGuid image
  have hfree : ∀ i, ((image.create totalSectors diskGuid).statics.partitions
      i).typeGuid.IsZero := by
    intro i
    rw [hzero i]
    exact fun _ => rfl
  cases diskGuid with
  | none =>
      refine ⟨?_, by simp [Ledger.create], fun i _ => hfree i, by
        simp [Ledger.create]⟩
      rintro n hn
      obtain rfl := Option.some.inj hn
      refine ⟨hgenerated, ?_⟩
      rw [newDiskGuid, hseed]
      rfl
  | some guid =>
      exact ⟨by simp [Ledger.create], fun _ => hproper.2 guid rfl,
        fun i _ => hfree i, by simp [Ledger.create]⟩

theorem Ledger.Accounts.init {s s' : System} (hs : Represents s image)
    (h : ledger.Accounts image) (hrun : gptInit s = some (0, s')) :
    ∃ image', Represents s' image' ∧ ledger.Accounts image' := by
  obtain ⟨totalSectors, guid, old, shadow, hlast, htable, hdescribes, -⟩ :=
    h.table
  have hloaded := ((htable.gptInit_executes image.statics).deterministic
    hs hrun).2
  refine ⟨_, hloaded, h.seed, totalSectors, guid, old, shadow, hlast, htable,
    hdescribes, fun _ => ⟨?_, rfl⟩⟩
  exact htable.reload rfl rfl rfl

/-- An edit stores a table again; what it does to the slots is left. -/
theorem Ledger.Accounts.edit {ledger' : Ledger} (h : ledger.Accounts image)
    (hinit : image.statics.initialized = true) {change : Edit}
    {f : Statics → Statics} (heffect : change.Effect image.statics f)
    (hseed : (f image.statics).seed = seedAfter ledger'.generated)
    (hslots : ∀ guid, ledger.Describes guid image.statics.partitions →
      ledger'.Describes guid (f image.statics).partitions) :
    ledger'.Accounts (image.withStatics f).store := by
  obtain ⟨totalSectors, guid, old, shadow, hlast, -, hdescribes, hloaded⟩ :=
    h.table
  obtain ⟨htable, hpartitions⟩ := hloaded hinit
  have htable' := htable.edit hlast heffect
  refine ⟨?_, totalSectors, guid, old, _, hlast, htable', ?_,
    fun _ => ⟨htable', rfl⟩⟩
  · rw [Image.store_statics, Statics.sealTable_seed]
    exact hseed
  · rw [Statics.sealTable_partitions]
    rw [← hpartitions] at hdescribes
    exact hslots guid hdescribes

theorem Ledger.Describes.add {guid : Guid} {partitions : Fin 128 → Entry}
    (h : ledger.Describes guid partitions)
    (hgenerated : ledger.generated < 10000) (slot : Nat) {entry : Entry}
    (htype : ¬ entry.typeGuid.IsZero)
    (hguid : entry.partitionGuid = guidAt ledger.generated) :
    (ledger.add (some slot)).Describes guid
      (Function.update partitions (Fin.ofNat 128 slot) entry) := by
  refine ⟨h.disk, h.foreign, fun i hi => ?_, fun i n hi => ?_⟩
  · by_cases hslot : i = Fin.ofNat 128 slot
    · simp only [Ledger.add, hslot, Function.update_self, reduceCtorEq] at hi
    · simp only [Ledger.add, Function.update_of_ne hslot] at hi
      rw [Function.update_of_ne hslot]
      exact h.free i hi
  · by_cases hslot : i = Fin.ofNat 128 slot
    · simp only [Ledger.add, hslot, Function.update_self] at hi
      obtain rfl := Option.some.inj hi
      rw [hslot, Function.update_self]
      exact ⟨hgenerated, htype, hguid⟩
    · simp only [Ledger.add, Function.update_of_ne hslot] at hi
      rw [Function.update_of_ne hslot]
      exact h.used i n hi

theorem Ledger.Describes.delete {guid : Guid} {partitions : Fin 128 → Entry}
    (h : ledger.Describes guid partitions) (index : Nat) :
    (ledger.delete index).Describes guid
      (Function.update partitions (Fin.ofNat 128 index) Entry.zero) := by
  refine ⟨h.disk, h.foreign, fun i hi => ?_, fun i n hi => ?_⟩
  · by_cases hslot : i = Fin.ofNat 128 index
    · rw [hslot, Function.update_self]
      exact fun _ => rfl
    · simp only [Ledger.delete, Function.update_of_ne hslot] at hi
      rw [Function.update_of_ne hslot]
      exact h.free i hi
  · by_cases hslot : i = Fin.ofNat 128 index
    · simp only [Ledger.delete, hslot, Function.update_self,
        reduceCtorEq] at hi
    · simp only [Ledger.delete, Function.update_of_ne hslot] at hi
      rw [Function.update_of_ne hslot]
      exact h.used i n hi

/-- What the ledger records of an addition or a deletion is right. -/
theorem Ledger.Accounts.edit_run {s s' : System} (hs : Represents s image)
    (h : ledger.Accounts image) {change : Edit} (htyped : change.Typed)
    (hgenerated : ledger.generated + (Action.edit change).generates ≤ 10000)
    (hrun : change.run s = some (0, s')) :
    ∃ image', Represents s' image' ∧
      (ledger.next s.gpt (.edit change)).Accounts image' := by
  rcases change.executes image with hrefuse | ⟨f, heffect, hinit, hdone⟩
  · have hstatus := (hrefuse.deterministic hs hrun).1
    exact absurd hstatus (by decide)
  have hafter := (hdone.deterministic hs hrun).2
  refine ⟨_, hafter, ?_⟩
  clear hafter hdone hrun
  rw [hs.2.1]
  cases heffect with
  | @add firstLba lastLba typeGuid name slot hslot hadmits =>
      rw [Ledger.next, hslot]
      refine h.edit hinit (.add hslot hadmits) ?_ fun guid hdescribes => ?_
      · simp only [Statics.addEntry, h.seed, generateGuid_seedAfter,
          Ledger.add]
      · refine hdescribes.add hgenerated slot ?_ ?_
        · exact htyped
        · change (generateGuid image.statics.seed).1 = _
          rw [h.seed, generateGuid_seedAfter]
  | delete hindex =>
      exact h.edit hinit (.delete hindex) h.seed fun guid hdescribes =>
        hdescribes.delete _

theorem Ledger.Accounts.action_run {s s' : System} (hs : Represents s image)
    (h : ledger.Accounts image) {action : Action} (hproper : action.Proper)
    (hgenerated : ledger.generated + action.generates ≤ 10000)
    (hrun : action.run s = some (0, s')) :
    ∃ image', Represents s' image' ∧
      (ledger.next s.gpt action).Accounts image' := by
  cases action with
  | restart =>
      cases hrun
      exact ⟨⟨Statics.startup, image.disk⟩, ⟨hs.1, rfl, hs.2.2⟩, h.restart⟩
  | create totalSectors diskGuid =>
      have hcreated := ((gptCreateTable_executes totalSectors diskGuid
        image).deterministic hs hrun).2
      refine ⟨_, hcreated, Ledger.create_accounts h.seed hproper ?_⟩
      cases diskGuid with
      | none => exact hgenerated
      | some guid => exact hgenerated
  | init => exact h.init hs hrun
  | edit change => exact h.edit_run hs hproper hgenerated hrun

end Actions

/-! ## Lifetimes -/

theorem Ledger.next_generated_le (ledger : Ledger) (g : Statics)
    (action : Action) :
    (ledger.next g action).generated ≤
      ledger.generated + action.generates := by
  cases action with
  | restart => exact Nat.zero_le _
  | create totalSectors diskGuid => cases diskGuid <;> exact le_rfl
  | init => exact le_rfl
  | edit change =>
      cases change with
      | add =>
          rw [Ledger.next, Action.generates]
          cases findFreeSlot g.partitions maxPartitions 0 with
          | none => exact Nat.le_succ _
          | some slot => exact le_rfl
      | delete => exact le_rfl

namespace Ledger

variable {ledger : Ledger}

theorem Distinct.create (ledger : Ledger) (diskGuid : Option Guid) :
    (ledger.create diskGuid).Distinct := by
  cases diskGuid <;> constructor <;> simp [Ledger.create]

theorem Distinct.delete (h : ledger.Distinct) (index : Nat) :
    (ledger.delete index).Distinct := by
  have hold : ∀ i n, (ledger.delete index).slots i = some n →
      ledger.slots i = some n := by
    intro i n hi
    by_cases hslot : i = Fin.ofNat 128 index
    · simp only [Ledger.delete, hslot, Function.update_self,
        reduceCtorEq] at hi
    · simpa only [Ledger.delete, Function.update_of_ne hslot] using hi
  exact ⟨fun i j n hi hj => h.slots i j n (hold i n hi) (hold j n hj),
    fun i n hi => h.disk i n (hold i n hi)⟩

theorem Distinct.add (h : ledger.Distinct) (hunused : ledger.Unused)
    (slot : Option Nat) : (ledger.add slot).Distinct := by
  cases slot with
  | none => exact h
  | some slot =>
      have hcases : ∀ i n, (ledger.add (some slot)).slots i = some n →
          i = Fin.ofNat 128 slot ∧ n = ledger.generated ∨
            ledger.slots i = some n := by
        intro i n hi
        by_cases hslot : i = Fin.ofNat 128 slot
        · simp only [Ledger.add, hslot, Function.update_self] at hi
          exact Or.inl ⟨hslot, (Option.some.inj hi).symm⟩
        · simp only [Ledger.add, Function.update_of_ne hslot] at hi
          exact Or.inr hi
      constructor
      · intro i j n hi hj
        rcases hcases i n hi with ⟨hinew, hn⟩ | hiold
        · rcases hcases j n hj with ⟨hjnew, -⟩ | hjold
          · rw [hinew, hjnew]
          · exact absurd (hn ▸ hjold) (hunused.2 j)
        · rcases hcases j n hj with ⟨-, hn⟩ | hjold
          · exact absurd (hn ▸ hiold) (hunused.2 i)
          · exact h.slots i j n hiold hjold
      · intro i n hi
        rcases hcases i n hi with ⟨-, rfl⟩ | hold
        · exact hunused.1
        · exact h.disk i n hold

/-- Where an identifier is generated again, two of them are equal. -/
theorem Distinct.unused {slot : Nat}
    (h : (ledger.add (some slot)).Distinct)
    (hfree : ledger.slots (Fin.ofNat 128 slot) = none) : ledger.Unused := by
  have hnew : (ledger.add (some slot)).slots (Fin.ofNat 128 slot) =
      some ledger.generated := by
    simp only [Ledger.add, Function.update_self]
  refine ⟨h.disk _ _ hnew, fun i hi => ?_⟩
  have hslot : i ≠ Fin.ofNat 128 slot := by
    rintro rfl
    rw [hfree] at hi
    cases hi
  have hold : (ledger.add (some slot)).slots i = some ledger.generated := by
    simpa only [Ledger.add, Function.update_of_ne hslot] using hi
  exact hslot (h.slots _ _ _ hold hnew)

theorem Distinct.next (h : ledger.Distinct) (g : Statics) {action : Action}
    (hfresh : action.Fresh ledger) : (ledger.next g action).Distinct := by
  cases action with
  | restart => exact ⟨h.slots, h.disk⟩
  | create totalSectors diskGuid => exact Distinct.create ledger diskGuid
  | init => exact h
  | edit change =>
      cases change with
      | add => exact h.add hfresh _
      | delete index => exact h.delete _

theorem Accounts.slot_none {image : Image} (h : ledger.Accounts image)
    (hinit : image.statics.initialized = true) {i : Fin 128}
    (hfree : (image.statics.partitions i).typeGuid.IsZero) :
    ledger.slots i = none := by
  obtain ⟨_, _, _, shadow, -, -, hdescribes, hloaded⟩ := h.table
  obtain ⟨-, hpartitions⟩ := hloaded hinit
  cases hslot : ledger.slots i with
  | none => rfl
  | some n =>
      rw [hpartitions] at hfree
      exact absurd hfree (hdescribes.used i n hslot).2.1

end Ledger

section Lifetimes

variable {s : System} {totalSectors : UInt64} {diskGuid : Option Guid}
  (hs : s.device.FaultFree) (hstart : s.gpt = Statics.startup)
  (hfirst : (Action.create totalSectors diskGuid).Proper)

include hs hstart hfirst

theorem Lifetime.accounts {actions : List Action} {ledger : Ledger}
    {s' : System} (h : Lifetime s totalSectors diskGuid actions ledger s')
    (hproper : ∀ action ∈ actions, action.Proper)
    (hcount : (Action.create totalSectors diskGuid).generates +
      (actions.map Action.generates).sum ≤ 10000) :
    (∃ image, Represents s' image ∧ ledger.Accounts image) ∧
      ledger.generated ≤ (Action.create totalSectors diskGuid).generates +
        (actions.map Action.generates).sum := by
  induction h with
  | create hrun =>
      have hbound : (Ledger.start.create diskGuid).generated ≤
          (Action.create totalSectors diskGuid).generates := by
        cases diskGuid <;> exact le_rfl
      have hseed : (System.image s).statics.seed =
          seedAfter Ledger.start.generated := by
        change s.gpt.seed = _
        rw [hstart]
        rfl
      exact ⟨⟨_, represents_create hs hrun, Ledger.create_accounts hseed hfirst
        (by simp at hcount; omega)⟩, by simpa using hbound⟩
  | @act actions action ledger now next hprevious hrun ih =>
      simp only [List.map_append, List.map_cons, List.map_nil,
        List.sum_append, List.sum_cons, List.sum_nil, add_zero] at hcount ⊢
      obtain ⟨⟨image, himage, haccounts⟩, hbound⟩ := ih
        (fun action haction => hproper action (by simp [haction])) (by omega)
      have hnext := ledger.next_generated_le now.gpt action
      exact ⟨haccounts.action_run himage (hproper action (by simp)) (by omega)
        hrun, by omega⟩

/--
The identifiers on the disk are distinct in every state of a lifetime exactly
when each addition generates an identifier that, counted from the start before
it was generated, none on the disk has the place of.
-/
theorem guids_distinct_throughout_iff {actions : List Action}
    (hproper : ∀ action ∈ actions, action.Proper)
    (hcount : (Action.create totalSectors diskGuid).generates +
      (actions.map Action.generates).sum ≤ 10000) :
    (∀ past ledger now, past <+: actions →
      Lifetime s totalSectors diskGuid past ledger now →
        DistinctGuids now.device.sectors) ↔
    ∀ past action ledger now next, past ++ [action] <+: actions →
      Lifetime s totalSectors diskGuid past ledger now →
      action.run now = some (0, next) → action.Fresh ledger := by
  have hprefix : ∀ {past : List Action} {ledger : Ledger} {now : System},
      past <+: actions → Lifetime s totalSectors diskGuid past ledger now →
      ∃ image, Represents now image ∧ ledger.Accounts image := by
    intro past ledger now hpast hlife
    obtain ⟨rest, rfl⟩ := hpast
    rw [List.map_append, List.sum_append] at hcount
    exact (hlife.accounts hs hstart hfirst
      (fun action haction => hproper action (by simp [haction]))
      (by omega)).1
  constructor
  · intro hthroughout past action ledger now next hpast hlife hrun
    cases action with
    | edit change =>
        cases change with
        | delete => trivial
        | add firstLba lastLba typeGuid name =>
            obtain ⟨image, himage, haccounts⟩ :=
              hprefix ((List.prefix_append _ _).trans hpast) hlife
            obtain ⟨image', himage', haccounts'⟩ :=
              hprefix hpast (hlife.act hrun)
            have hafter := hthroughout _ _ _ hpast (hlife.act hrun)
            rw [himage'.2.2, haccounts'.distinct_iff] at hafter
            rcases Edit.executes (.add firstLba lastLba typeGuid name) image
              with hrefuse | ⟨f, heffect, hinit, -⟩
            · have hstatus := (hrefuse.deterministic himage hrun).1
              exact absurd hstatus (by decide)
            · cases heffect with
              | add hslot =>
                  rw [himage.2.1, Ledger.next, hslot] at hafter
                  exact hafter.unused (haccounts.slot_none hinit
                    (lowestFree_of_find hslot).free)
    | _ => trivial
  · intro hfresh past ledger now hpast hlife
    obtain ⟨image, himage, haccounts⟩ := hprefix hpast hlife
    rw [himage.2.2, haccounts.distinct_iff]
    clear image himage haccounts
    induction hlife with
    | create => exact Ledger.Distinct.create _ diskGuid
    | act hprevious hrun ih =>
        exact (ih ((List.prefix_append _ _).trans hpast)).next _
          (hfresh _ _ _ _ _ hpast hprevious hrun)

end Lifetimes

theorem Lifetime.eq_create {s s' : System} {totalSectors : UInt64}
    {diskGuid : Option Guid} {actions : List Action} {ledger : Ledger}
    (h : Lifetime s totalSectors diskGuid actions ledger s')
    (hnil : actions = []) : ledger = Ledger.start.create diskGuid := by
  cases h with
  | create => rfl
  | act => simp at hnil

/-- A blank disk of 100 sectors with one partition keeps two identifiers apart. -/
theorem guids_distinct_without_restart :
    ∃ ledger s', Lifetime (System.startup fun _ => Sector.zero) 100 none
        [.edit (.add 34 40 efiSystemType none)] ledger s' ∧
      DistinctGuids s'.device.sectors := by
  have hs := System.startup_faultFree fun _ => Sector.zero
  obtain ⟨created, s', hcreate, hedits, -⟩ := exists_create_add hs 100
    none 34 40 (by decide) (by decide) (by decide) efiSystemType none
  obtain ⟨before, hprevious, hadd⟩ := hedits.last [] rfl
  cases hprevious.eq_start rfl
  have hrun : (Action.edit (.add 34 40 efiSystemType none)).run created =
      some (0, s') := hadd
  have hlife := (Lifetime.create hcreate).act hrun
  refine ⟨_, s', hlife, ?_⟩
  refine (guids_distinct_throughout_iff hs rfl ⟨by decide, by simp⟩
    (by simpa [Action.Proper, Edit.Typed] using efiSystemType_not_zero)
    (by decide)).mpr ?_ _ _ s' List.prefix_rfl hlife
  intro past action ledger now next hpast hbefore hrun
  obtain ⟨rfl, rfl⟩ : past = [] ∧
      action = .edit (.add 34 40 efiSystemType none) := by
    cases past with
    | nil => simpa using hpast
    | cons first past => simp at hpast
  cases hbefore.eq_create rfl
  exact ⟨by simp [Ledger.create, Ledger.start], by simp [Ledger.create]⟩

theorem Table.stored_admits_iff {totalSectors : UInt64} {guid : Guid}
    {old : Nat → Sector} {image : Image}
    (h : Table totalSectors guid old image) {firstLba lastLba : UInt64} :
    image.statics.sealTable.header.Admits firstLba lastLba ↔
      34 ≤ firstLba ∧ firstLba < lastLba ∧ lastLba ≤ totalSectors - 34 := by
  rw [h.sealTable_header]
  rfl

/-- A table that is loaded after a restart takes a partition. -/
theorem Table.exists_init_add {totalSectors : UInt64} {guid : Guid}
    {old : Nat → Sector} {image : Image}
    (h : Table totalSectors guid old image) {s : System}
    (hs : Represents s ⟨Statics.startup, image.disk⟩) {slot : Nat}
    (hslot : findFreeSlot image.statics.partitions maxPartitions 0 = some slot)
    {firstLba lastLba : UInt64}
    (hrange : image.statics.sealTable.header.Admits firstLba lastLba)
    (typeGuid : Guid) (name : Option (List UInt8)) :
    ∃ loaded s', gptInit s = some (0, loaded) ∧
      findFreeSlot loaded.gpt.partitions maxPartitions 0 = some slot ∧
      gptAddPartition firstLba lastLba typeGuid name loaded = some (0, s') := by
  obtain ⟨loaded, hinit, hloaded⟩ := h.gptInit_executes Statics.startup s hs
  have hfree : findFreeSlot loaded.gpt.partitions maxPartitions 0 =
      some slot := by
    rw [hloaded.2.1]
    exact hslot
  have hready : (System.image loaded).statics.initialized = true := by
    change loaded.gpt.initialized = true
    rw [hloaded.2.1]
  have hadmits : (System.image loaded).statics.header.Admits firstLba
      lastLba := by
    change loaded.gpt.header.Admits firstLba lastLba
    rw [hloaded.2.1]
    exact hrange
  obtain ⟨s', hadd, -⟩ := represents_backs.gptAddPartition_accepts
    (fun _ _ _ => trivial) hready hfree hadmits typeGuid name loaded
    (represents_image hloaded.1)
  exact ⟨loaded, s', hinit, hfree, hadd⟩

/-- A restart before the first partition, and it gets the disk's identifier. -/
theorem guids_repeat_after_restart :
    ∃ ledger s', Lifetime (System.startup fun _ => Sector.zero) 100 none
        [.restart, .init, .edit (.add 34 40 efiSystemType none)] ledger s' ∧
      ¬ DistinctGuids s'.device.sectors := by
  have hs := System.startup_faultFree fun _ => Sector.zero
  obtain ⟨created, hcreate, hcreated⟩ := exists_create hs 100 none
  have htable := Image.create_table 100 none
    (System.image (System.startup fun _ => Sector.zero)) (by decide)
  have hrestart : Action.restart.run created = some (0, created.restart) := rfl
  have hslot := Image.create_findFreeSlot 100 none
    (System.image (System.startup fun _ => Sector.zero))
  have hadmits := htable.stored_admits_iff.mpr
    ⟨(by decide : (34 : UInt64) ≤ 34), (by decide : (34 : UInt64) < 40),
      by decide⟩
  have hloads : Represents created.restart ⟨Statics.startup, _⟩ :=
    ⟨hcreated.1, rfl, hcreated.2.2⟩
  obtain ⟨loaded, s', hinit, hnow, hadd⟩ := htable.exists_init_add hloads hslot
    hadmits efiSystemType none
  have hinitRun : Action.init.run created.restart = some (0, loaded) := hinit
  have haddRun : (Action.edit (.add 34 40 efiSystemType none)).run loaded =
      some (0, s') := hadd
  have hlife := (((Lifetime.create hcreate).act hrestart).act hinitRun).act
    haddRun
  refine ⟨_, s', hlife, ?_⟩
  obtain ⟨⟨image, himage, haccounts⟩, -⟩ := hlife.accounts hs rfl
    ⟨by decide, by simp⟩
    (by simpa [Action.Proper, Edit.Typed] using efiSystemType_not_zero)
    (by decide)
  rw [himage.2.2, haccounts.distinct_iff]
  intro hdistinct
  refine hdistinct.disk (Fin.ofNat 128 0) 0 ?_ ?_
  · simp only [Ledger.next, hnow, Ledger.add, Function.update_self]
  · simp only [Ledger.next, hnow, Ledger.add]
    rfl

end EntropyOS.Gpt
