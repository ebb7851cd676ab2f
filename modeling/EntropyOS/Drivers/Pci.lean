import EntropyOS.Foundation.Bytes
import EntropyOS.Foundation.Chain

/-!
# PCI capabilities

`pcie_init` and `pci_device_has_pcie` follow the list of capabilities that a
device has in its configuration space.  Nothing bounds the loop, so it ends only
where the list does.
-/

namespace EntropyOS.Pci

open EntropyOS.Foundation

/-- What `CONFIG_DATA` shows for each value of `CONFIG_ADDR`. -/
abbrev ConfigSpace := UInt32 → UInt32

/-- A function of a device, by its bus and its slot. -/
structure Place where
  bus : UInt8
  slot : UInt8
  func : UInt8
  deriving DecidableEq

def pciConfigRead32 (config : ConfigSpace) (place : Place) (offset : UInt8) : UInt32 :=
  config ((0x80000000 : UInt32) ||| (place.bus.toUInt32 <<< 16) |||
    (place.slot.toUInt32 <<< 11) ||| (place.func.toUInt32 <<< 8) |||
    (offset &&& 0xFC).toUInt32)

def pciGetBar (config : ConfigSpace) (place : Place) (barIndex : Int) : UInt64 :=
  if barIndex < 0 ∨ barIndex > 5 then 0
  else
    let off := 0x10 + UInt8.ofNat barIndex.toNat * 4
    let low := pciConfigRead32 config place off
    if low = 0 ∨ low = 0xFFFFFFFF then 0
    else if low &&& 0x1 ≠ 0 then (low &&& 0xFFFFFFFC).toUInt64
    else if (low >>> 1) &&& 0x3 = 0x2 then
      let high := pciConfigRead32 config place (off + 4)
      (high.toUInt64 <<< 32) ||| (low &&& 0xFFFFFFF0).toUInt64
    else (low &&& 0xFFFFFFF0).toUInt64

/-! ## The capability list -/

section Capabilities

variable (read : UInt8 → UInt32)

/-- The register that a pointer of the list names. -/
def capability (capPtr : UInt8) : UInt32 := read (capPtr &&& 0xFC)

def capId (capPtr : UInt8) : UInt8 := (capability read capPtr).toUInt8

def capNext (capPtr : UInt8) : UInt8 := (capability read capPtr >>> 8).toUInt8

def capStart : UInt8 := (read (0x34 &&& 0xFC)).toUInt8

/--
The loop over the list: the pointer it is left with, which is 0 at the end of
the list and names the capability if it was found.
-/
def findCapability (capPtr : UInt8) : Option UInt8 :=
  if capPtr = 0 then some 0
  else if capId read capPtr = 0x10 then some capPtr
  -- written with `apply`, the call keeps no source position in the fixpoint
  else by apply findCapability; exact capNext read capPtr
partial_fixpoint

end Capabilities

def pciDeviceHasPcie (config : ConfigSpace) (place : Place) : Option Int :=
  let read := pciConfigRead32 config place
  let status := (read 4 >>> 16).toUInt16
  if status &&& 0x10 = 0 then some 0
  else do
    let capPtr ← findCapability read (capStart read)
    return if capPtr = 0 then 0 else 1

/-! ## The table of devices -/

structure PcieDevice where
  place : Place
  vendorId : UInt16
  deviceId : UInt16
  classCode : UInt8
  subclass : UInt8
  progIf : UInt8
  headerType : UInt8
  bar : Fin 6 → UInt64
  pcieCapOffset : UInt8
  pcieCap : Fin 4 → UInt32

def readDevice (config : ConfigSpace) (place : Place) : Option PcieDevice := do
  let read := pciConfigRead32 config place
  let d0 := read 0
  let d2 := read 8
  let capPtr ← findCapability read (capStart read)
  return {
    place := place
    vendorId := d0.toUInt16
    deviceId := (d0 >>> 16).toUInt16
    classCode := (d2 >>> 24).toUInt8
    subclass := (d2 >>> 16).toUInt8
    progIf := (d2 >>> 8).toUInt8
    headerType := (read 0x0C >>> 16).toUInt8
    bar := fun i => pciGetBar config place i
    pcieCapOffset := capPtr
    pcieCap := fun k =>
      if capPtr = 0 then 0 else read ((capPtr &&& 0xFC) + UInt8.ofNat k * 4) }

def Present (config : ConfigSpace) (place : Place) : Prop :=
  pciConfigRead32 config place 0 ≠ 0xFFFFFFFF

instance (config : ConfigSpace) : DecidablePred (Present config) :=
  fun _ => inferInstanceAs (Decidable (_ ≠ _))

def pcieMaxDevices : Nat := 64

def scanFunction (config : ConfigSpace) (devices : List PcieDevice) (place : Place) :
    Option (List PcieDevice) :=
  if ¬ Present config place then some devices
  else if devices.length ≥ pcieMaxDevices then some devices
  else do
    let device ← readDevice config place
    return devices ++ [device]

def places : List Place :=
  (List.range 8).flatMap fun bus => (List.range 32).flatMap fun slot =>
    (List.range 8).map fun func => ⟨.ofNat bus, .ofNat slot, .ofNat func⟩

def pcieInit (config : ConfigSpace) : Option (Int × List PcieDevice) := do
  let devices ← places.foldlM (scanFunction config) []
  return (if devices.length > 0 then 0 else -1, devices)

/-! ## When the loop ends -/

section Capabilities

variable (read : UInt8 → UInt32)

def GoesOn (capPtr : UInt8) : Prop := capPtr ≠ 0 ∧ capId read capPtr ≠ 0x10

instance : DecidablePred (GoesOn read) := fun _ => inferInstanceAs (Decidable (_ ∧ _))

/-- One of the first 256 pointers is 0 or names the capability. -/
def ListEnds : Prop := ∃ n < 256, ¬ GoesOn read ((capNext read)^[n] (capStart read))

/-- `capPtr` is where the list is left, all pointers before it being passed over. -/
def LeavesAt (capPtr : UInt8) : Prop :=
  ∃ passed, Walk (capNext read) (GoesOn read) (capStart read) passed capPtr

variable {read}

theorem not_goesOn_iff {capPtr : UInt8} :
    ¬ GoesOn read capPtr ↔ capPtr = 0 ∨ capId read capPtr = 0x10 := by
  rw [GoesOn, not_and_or, not_ne_iff, not_ne_iff]

theorem findCapability_eq_some_iff {first last : UInt8} :
    findCapability read first = some last ↔
      ∃ passed, Walk (capNext read) (GoesOn read) first passed last := by
  constructor
  · refine findCapability.partial_correctness read
      (fun first last => ∃ passed, Walk (capNext read) (GoesOn read) first passed last) ?_
      first last
    intro find ih first last hfind
    split at hfind
    · next hend =>
      obtain rfl := Option.some.inj hfind
      rw [hend]
      exact ⟨[], .stop (not_goesOn_iff.mpr (.inl rfl))⟩
    · next hzero =>
      split at hfind
      · next hfound =>
        obtain rfl := Option.some.inj hfind
        exact ⟨[], .stop (not_goesOn_iff.mpr (.inr hfound))⟩
      · next hother =>
        obtain ⟨passed, hwalk⟩ := ih _ _ hfind
        exact ⟨first :: passed, .step ⟨hzero, hother⟩ hwalk⟩
  · rintro ⟨passed, hwalk⟩
    induction hwalk with
    | stop hstop =>
        rw [findCapability]
        rcases not_goesOn_iff.mp hstop with hend | hfound
        · rw [if_pos hend, hend]
        · rw [if_pos hfound]
          split
          · next hend => rw [hend]
          · rfl
    | step hgoes _ ih => rw [findCapability, if_neg hgoes.1, if_neg hgoes.2, ih]

/-- There are 256 pointers, so a list that ends does so within as many steps. -/
theorem findCapability_isSome_iff :
    (findCapability read (capStart read)).isSome ↔ ListEnds read := by
  rw [Option.isSome_iff_exists]
  constructor
  · rintro ⟨last, hfind⟩
    obtain ⟨passed, hwalk⟩ := findCapability_eq_some_iff.mp hfind
    refine ⟨passed.length, hwalk.length_lt (fun _ _ => UInt8.toFin_inj.mp), ?_⟩
    rw [← hwalk.last_eq_iterate]
    exact hwalk.not_live_last
  · rintro ⟨n, -, hstop⟩
    obtain ⟨passed, last, hwalk⟩ := Walk.exists_of_iterate hstop
    exact ⟨last, findCapability_eq_some_iff.mpr ⟨passed, hwalk⟩⟩

end Capabilities

/-! ## The scan -/

section Scan

variable {config : ConfigSpace}

/-- The functions that `pcie_init` records: the first 64 that answer. -/
def recorded (config : ConfigSpace) : List Place :=
  (places.filter (Present config ·)).take pcieMaxDevices

theorem readDevice_isSome_iff {place : Place} :
    (readDevice config place).isSome ↔ ListEnds (pciConfigRead32 config place) := by
  rw [← findCapability_isSome_iff, readDevice]
  cases findCapability (pciConfigRead32 config place)
    (capStart (pciConfigRead32 config place)) with
  | none => simp
  | some capPtr => simp

theorem readDevice_offset {place : Place} {device : PcieDevice}
    (h : readDevice config place = some device) :
    device.place = place ∧
      LeavesAt (pciConfigRead32 config place) device.pcieCapOffset := by
  rw [readDevice] at h
  cases hfind : findCapability (pciConfigRead32 config place)
    (capStart (pciConfigRead32 config place)) with
  | none => simp [hfind] at h
  | some capPtr =>
      simp only [hfind, Option.pure_def, Option.bind_eq_bind, Option.bind_some,
        Option.some.injEq] at h
      rw [← h]
      exact ⟨rfl, findCapability_eq_some_iff.mp hfind⟩

theorem foldlM_scanFunction (rest : List Place) (devices : List PcieDevice)
    (hroom : devices.length ≤ pcieMaxDevices) :
    rest.foldlM (scanFunction config) devices =
      (((rest.filter (Present config ·)).take (pcieMaxDevices - devices.length)).mapM
        (readDevice config)).map (devices ++ ·) := by
  induction rest generalizing devices with
  | nil => simp
  | cons place rest ih =>
      rw [List.foldlM_cons, scanFunction]
      by_cases hpresent : Present config place
      · rw [if_neg (not_not.mpr hpresent),
          List.filter_cons_of_pos (by simpa using hpresent)]
        by_cases hfull : devices.length ≥ pcieMaxDevices
        · have hnone : pcieMaxDevices - devices.length = 0 := by omega
          rw [if_pos hfull, hnone, List.take_zero]
          simpa [hnone] using ih devices hroom
        · obtain ⟨left, hleft⟩ : ∃ n, pcieMaxDevices - devices.length = n + 1 :=
            ⟨pcieMaxDevices - devices.length - 1, by omega⟩
          rw [if_neg hfull, hleft, List.take_succ_cons, List.mapM_cons]
          cases readDevice config place with
          | none => rfl
          | some device =>
              have hrest := ih (devices ++ [device]) (by simp; omega)
              have hleft' : pcieMaxDevices - (devices ++ [device]).length = left := by
                rw [List.length_append, List.length_singleton]
                omega
              rw [hleft'] at hrest
              simp only [Option.pure_def, Option.bind_eq_bind, Option.bind_some, hrest]
              cases List.mapM (readDevice config)
                ((rest.filter (Present config ·)).take left) with
              | none => rfl
              | some devices' => simp
      · rw [if_pos hpresent, List.filter_cons_of_neg (by simpa using hpresent)]
        exact ih devices hroom

theorem pcieInit_eq :
    pcieInit config = ((recorded config).mapM (readDevice config)).map fun devices =>
      (if devices.length > 0 then 0 else -1, devices) := by
  rw [pcieInit, foldlM_scanFunction places [] (Nat.zero_le _), recorded]
  simp only [List.length_nil, Nat.sub_zero, List.nil_append, Option.map_id']
  cases List.mapM (readDevice config)
    ((places.filter (Present config ·)).take pcieMaxDevices) with
  | none => rfl
  | some devices => rfl

theorem mapM_readDevice {rest : List Place} :
    (rest.mapM (readDevice config)).isSome ↔
      ∀ place ∈ rest, ListEnds (pciConfigRead32 config place) := by
  induction rest with
  | nil => simp
  | cons place rest ih =>
      rw [List.forall_mem_cons, ← ih, ← readDevice_isSome_iff, List.mapM_cons]
      cases readDevice config place with
      | none => simp
      | some device =>
          cases rest.mapM (readDevice config) with
          | none => simp
          | some devices => simp

theorem mapM_readDevice_offsets {rest : List Place} {devices : List PcieDevice}
    (h : rest.mapM (readDevice config) = some devices) :
    devices.map PcieDevice.place = rest ∧
    ∀ device ∈ devices,
      LeavesAt (pciConfigRead32 config device.place) device.pcieCapOffset := by
  induction rest generalizing devices with
  | nil =>
      obtain rfl : devices = [] := by simpa using h.symm
      simp
  | cons place rest ih =>
      rw [List.mapM_cons] at h
      cases hread : readDevice config place with
      | none => simp [hread] at h
      | some device =>
          cases hrest : rest.mapM (readDevice config) with
          | none => simp [hread, hrest] at h
          | some devices' =>
              obtain rfl : devices = device :: devices' := by
                simpa [hread, hrest] using h.symm
              obtain ⟨hplaces, hoffsets⟩ := ih hrest
              obtain ⟨hplace, hoffset⟩ := readDevice_offset hread
              rw [List.map_cons, hplaces, hplace]
              refine ⟨rfl, List.forall_mem_cons.mpr ⟨?_, hoffsets⟩⟩
              rw [hplace]
              exact hoffset

theorem pciDeviceHasPcie_isSome_iff {place : Place} :
    (pciDeviceHasPcie config place).isSome ↔
      (pciConfigRead32 config place 4 >>> 16).toUInt16 &&& 0x10 = 0 ∨
        ListEnds (pciConfigRead32 config place) := by
  rw [← findCapability_isSome_iff]
  simp only [pciDeviceHasPcie]
  split
  · next hclear => simp [hclear]
  · next hset =>
    cases findCapability (pciConfigRead32 config place)
      (capStart (pciConfigRead32 config place)) with
    | none => simp [hset]
    | some capPtr => simp

/--
Both loops end if and only if one of the first 256 pointers of the list is 0 or
names the capability; `pcie_init` then records the first such pointer.
-/
theorem capability_loops_end_iff (config : ConfigSpace) :
    ((pcieInit config).isSome ↔
      ∀ place ∈ recorded config, ListEnds (pciConfigRead32 config place)) ∧
    (∀ result devices, pcieInit config = some (result, devices) →
      devices.map PcieDevice.place = recorded config ∧
      ∀ device ∈ devices,
        LeavesAt (pciConfigRead32 config device.place) device.pcieCapOffset) ∧
    ∀ place, (pciDeviceHasPcie config place).isSome ↔
      (pciConfigRead32 config place 4 >>> 16).toUInt16 &&& 0x10 = 0 ∨
        ListEnds (pciConfigRead32 config place) := by
  refine ⟨?_, ?_, fun place => pciDeviceHasPcie_isSome_iff⟩
  · rw [pcieInit_eq, Option.isSome_map, mapM_readDevice]
  · intro result devices h
    rw [pcieInit_eq, Option.map_eq_some_iff] at h
    obtain ⟨devices', hdevices, hpair⟩ := h
    obtain ⟨-, rfl⟩ := Prod.mk.inj hpair
    exact mapM_readDevice_offsets hdevices

end Scan

theorem capability_everywhere :
    ∃ result devices, pcieInit (fun _ => 0x10) = some (result, devices) ∧
      ∀ device ∈ devices, LeavesAt (pciConfigRead32 (fun _ => 0x10) device.place)
        device.pcieCapOffset := by
  have hends : (pcieInit fun _ => 0x10).isSome :=
    (capability_loops_end_iff fun _ => 0x10).1.mpr fun _ _ => ⟨0, by decide, by
      rw [not_goesOn_iff]
      exact .inr rfl⟩
  obtain ⟨⟨result, devices⟩, hinit⟩ := Option.isSome_iff_exists.mp hends
  exact ⟨result, devices, hinit,
    ((capability_loops_end_iff fun _ => 0x10).2.1 result devices hinit).2⟩

/-- One device, whose only capability is followed by itself. -/
def loopingDevice : ConfigSpace := fun address =>
  if address = 0x80000000 then 0x12348086
  else if address = 0x80000034 then 0x40
  else if address = 0x80000040 then 0x4001
  else 0xFFFFFFFF

theorem capability_list_without_end : ¬ ∀ config, (pcieInit config).isSome := by
  intro hclaim
  have hends := hclaim loopingDevice
  rw [pcieInit_eq, Option.isSome_map, mapM_readDevice] at hends
  have hmem : (⟨0, 0, 0⟩ : Place) ∈ recorded loopingDevice := by
    have hplaces : places = ⟨0, 0, 0⟩ :: places.tail := rfl
    rw [recorded, hplaces, List.filter_cons_of_pos (by decide)]
    exact List.mem_cons_self
  obtain ⟨n, -, hstop⟩ := hends _ hmem
  have hstart : capStart (pciConfigRead32 loopingDevice ⟨0, 0, 0⟩) = 0x40 := by decide
  have hnext : capNext (pciConfigRead32 loopingDevice ⟨0, 0, 0⟩) 0x40 = 0x40 := by decide
  rw [hstart, Function.iterate_fixed hnext] at hstop
  exact hstop (by decide)

end EntropyOS.Pci
