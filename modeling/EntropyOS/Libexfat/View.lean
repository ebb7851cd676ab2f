import EntropyOS.Libexfat.Io

/-!
# What libexfat sees of a disk that works

The same record as the code runs on, with the bytes of the partition in place of
the handle.  A program is related to its effect on such a view by `Runs Shows`.
-/

namespace EntropyOS.Libexfat

open EntropyOS.Foundation
open EntropyOS.Exfat (Handle Backend bytes)

abbrev View := VolumeOn Buf

/-- The handle works, and the partition behind it holds `part`. -/
structure Holds (d : Handle) (part : Buf) : Prop where
  faultFree : d.backend.system.device.FaultFree
  base_le : d.backend.partitionOffset.toNat * 512 ≤ 2 ^ 63
  part_eq : ∀ k, bytes d.backend.system.device
    (d.backend.partitionOffset.toNat * 512 + k) = part k

namespace VolumeOn

abbrev on (v : View) (d : Handle) : Volume := { v with dev := d }

def store (v : View) (offset size : Nat) (buffer : Buf) : View :=
  { v with dev := v.dev.overlay offset size buffer }

section Fields

variable (v : View) (offset size : Nat) (buffer : Buf)

@[simp] theorem store_dev :
    (v.store offset size buffer).dev = v.dev.overlay offset size buffer := rfl

@[simp] theorem store_sb : (v.store offset size buffer).sb = v.sb := rfl

@[simp] theorem store_cmap : (v.store offset size buffer).cmap = v.cmap := rfl

@[simp] theorem store_nodes : (v.store offset size buffer).nodes = v.nodes := rfl

@[simp] theorem store_zeroCluster :
    (v.store offset size buffer).zeroCluster = v.zeroCluster := rfl

end Fields

def countError (v : View) : View := { v with exfatErrors := v.exfatErrors + 1 }

def countFixed (v : View) : View := { v with exfatErrorsFixed := v.exfatErrorsFixed + 1 }

@[simp] theorem countError_sb (v : View) : v.countError.sb = v.sb := rfl

@[simp] theorem countError_nodes (v : View) : v.countError.nodes = v.nodes := rfl

end VolumeOn

/-- A volume with a handle that holds the bytes of the view. -/
def Shows (ef : Volume) (v : View) : Prop :=
  ∃ d : Handle, Holds d v.dev ∧ ef = v.on d

section Rules

variable {v v' : View} {α β : Type} {a : α}

theorem get_runs {next : Volume → Program Volume α}
    (h : ∀ d, Runs Shows v (next (v.on d)) a v') :
    Runs Shows v (get >>= next) a v' := by
  rintro ef ⟨d, hd, rfl⟩
  exact h d _ ⟨d, hd, rfl⟩

theorem modify_runs {f : Volume → Volume} (h : ∀ d, f (v.on d) = v'.on d)
    (hdev : v'.dev = v.dev) : Runs Shows v (modify f : Program Volume Unit) () v' := by
  rintro ef ⟨d, hd, rfl⟩
  exact ⟨_, rfl, d, hdev ▸ hd, h d⟩

theorem unlessBug_runs {fine : Prop} [Decidable fine] (h : fine) :
    Runs Shows v (unlessBug fine) () v := by
  rintro ef hef
  refine ⟨ef, ?_, hef⟩
  simp [Libexfat.unlessBug, demand, h]

theorem getNode_runs (n : Nat) : Runs Shows v (getNode n) (v.nodes n) v := by
  rintro ef ⟨d, hd, rfl⟩
  exact ⟨_, rfl, d, hd, rfl⟩

theorem modifyNode_runs (n : Nat) (f : Node → Node) :
    Runs Shows v (modifyNode n f) () (v.setNode n (f (v.nodes n))) :=
  modify_runs (fun _ => rfl) rfl

theorem onDev_of_some {program : Program Handle α} {d d' : Handle}
    (h : program d = some (a, d')) : onDev program (v.on d) = some (a, v.on d') :=
  Program.onPart_of_some h

theorem text_holds {d : Handle} {part : Buf} (hd : Holds d part) (message : String) :
    ∃ d' : Handle, Exfat.onBackend (Exfat.onSystem (text message)) d = some ((), d') ∧
      Holds d' part :=
  ⟨_, rfl, hd.faultFree, hd.base_le, hd.part_eq⟩

theorem print_runs (message : String) : Runs Shows v (print message) () v := by
  rintro ef ⟨d, hd, rfl⟩
  obtain ⟨d', hrun, hd'⟩ := text_holds hd message
  exact ⟨_, onDev_of_some hrun, d', hd', rfl⟩

theorem exfatError_runs (format : String) :
    Runs Shows v (exfatError format) () v.countError := by
  have hcount : Runs Shows v (modify fun v => { v with exfatErrors := v.exfatErrors + 1 }) ()
      v.countError := modify_runs (fun _ => rfl) rfl
  exact hcount.bind ((print_runs _).bind ((print_runs _).bind (print_runs _)))

theorem countFixed_runs : Runs Shows v countFixed () v.countFixed :=
  modify_runs (fun _ => rfl) rfl

end Rules

/-! ## Transfers -/

section Transfers

variable {d : Handle} {part : Buf} {size offset : Nat}

theorem start_eq (hoffset : offset < 2 ^ 63) :
    d.backend.start (Int64.ofNat offset) =
      d.backend.partitionOffset.toNat * 512 + offset := by
  rw [Backend.start, Int64.toNatClampNeg_ofNat_of_lt hoffset]

theorem ofNat_nonneg (hoffset : offset < 2 ^ 63) : 0 ≤ Int64.ofNat offset := by
  rw [Int64.le_iff_toInt_le, Int64.toInt_ofNat_of_lt hoffset]
  exact Int.natCast_nonneg offset

theorem size_toNat (hsize : size < 2 ^ 63) : (UInt64.ofNat size).toNat = size :=
  UInt64.toNat_ofNat_of_lt' (lt_trans hsize (by norm_num))

theorem size_toInt (hsize : size < 2 ^ 63) :
    (UInt64.ofNat size).toInt64.toInt = size := by
  rw [Exfat.toInt_toInt64_of_lt (by rwa [size_toNat hsize]), size_toNat hsize]

/-- The end of a transfer that stays in the partition. -/
theorem fits_disk (hd : Holds d part) (hoffset : offset < 2 ^ 63)
    (hend : offset + size < 2 ^ 63) :
    d.backend.start (Int64.ofNat offset) + (UInt64.ofNat size).toNat ≤
      18446744073709551616 := by
  have hbase := hd.base_le
  rw [start_eq hoffset, size_toNat (by omega)]
  calc d.backend.partitionOffset.toNat * 512 + offset + size
      = d.backend.partitionOffset.toNat * 512 + (offset + size) := Nat.add_assoc ..
    _ ≤ 2 ^ 63 + 2 ^ 63 := Nat.add_le_add hbase hend.le
    _ = 18446744073709551616 := by norm_num

variable {v : View}

theorem pread_runs (buffer : Buf) (hend : offset + size < 2 ^ 63) :
    Runs Shows v (pread buffer size offset)
      (size, buffer.overlay 0 size fun k => v.dev (offset + k)) v := by
  rintro ef ⟨d, hd, rfl⟩
  have hoffset : offset < 2 ^ 63 := by omega
  have hsize : size < 2 ^ 63 := by omega
  have hread := Exfat.pread_eq hd.faultFree buffer (ofNat_nonneg hoffset)
    (fits_disk hd hoffset hend)
  rw [size_toNat hsize, start_eq hoffset] at hread
  have hbuffer : (fun k => bytes d.backend.system.device
      (d.backend.partitionOffset.toNat * 512 + offset + k)) =
        fun k => v.dev (offset + k) := by
    funext k
    rw [Nat.add_assoc, hd.part_eq]
  rw [hbuffer] at hread
  refine ⟨_, ?_, d, hd, rfl⟩
  rw [pread, Program.bind_of_some (onDev_of_some
    (Exfat.onBackend_of_some hread))]
  rw [← size_toInt hsize]
  rfl

theorem Holds.store (hd : Holds d part) (buffer : Buf) {system' : System}
    (hfree : system'.device.FaultFree)
    (hbytes : bytes system'.device = (bytes d.backend.system.device).overlay
      (d.backend.partitionOffset.toNat * 512 + offset) size buffer) :
    Holds (Handle.mk { d.backend with system := system' } d.pos d.size)
      (part.overlay offset size buffer) := by
  refine ⟨hfree, hd.base_le, fun k => ?_⟩
  simp only [hbytes, Buf.overlay, ← hd.part_eq]
  by_cases hin : offset ≤ k ∧ k < offset + size
  · rw [if_pos (by omega), if_pos hin]
    exact congrArg buffer (by omega)
  · rw [if_neg (by omega), if_neg hin]

theorem pwrite_runs (buffer : Buf) (hend : offset + size < 2 ^ 63) :
    Runs Shows v (pwrite buffer size offset) (size : Int)
      (v.store offset size buffer) := by
  rintro ef ⟨d, hd, rfl⟩
  have hoffset : offset < 2 ^ 63 := by omega
  have hsize : size < 2 ^ 63 := by omega
  obtain ⟨system', hwrite, hfree, hbytes⟩ := Exfat.pwrite_eq hd.faultFree buffer
    (ofNat_nonneg hoffset) (fits_disk hd hoffset hend)
  rw [size_toNat hsize, start_eq hoffset] at hbytes
  refine ⟨_, ?_, _, Holds.store hd buffer hfree hbytes, rfl⟩
  rw [pwrite, Program.bind_of_some (onDev_of_some
    (Exfat.onBackend_of_some hwrite))]
  rw [← size_toInt hsize]
  rfl

end Transfers

/-! ## A small volume -/

/-- Eight clusters of one sector, behind a FAT of one sector. -/
def smallSuperBlock : SuperBlock :=
  ⟨fun k => match k with
    | 0x50 => 1
    | 0x58 => 2
    | 0x5C => 8
    | 0x6C => 9
    | _ => 0⟩

def emptyNode : Node where
  parent := none
  children := []
  references := 1
  fptrIndex := 0
  fptrCluster := 0
  entryOffset := 0
  startCluster := 0
  attrib := 0
  continuations := 0
  isContiguous := false
  isCached := false
  isDirty := false
  isUnlinked := false
  validSize := 0
  size := 0
  mtime := 0
  atime := 0
  name := fun _ => 0

def smallView : View where
  dev := fun _ => 0
  sb := smallSuperBlock
  upcase := none
  root := 0
  cmap := ⟨2, 8, fun _ => 0, 8, false⟩
  label := fun _ => 0
  zeroCluster := fun _ => 0
  ro := false
  noatime := false
  repair := .no
  nodes := fun _ => emptyNode
  heapUsed := 0
  exfatErrors := 0
  exfatErrorsFixed := 0

def smallVolumeOn (disk : Buf) : Volume :=
  { smallView with dev := Exfat.Handle.opened fun lba i => disk ((lba - 2048) * 512 + i) }

theorem smallVolumeOn_shows (disk : Buf) :
    Shows (smallVolumeOn disk) { smallView with dev := disk } := by
  refine ⟨_, ⟨System.startup_faultFree _, ?_, fun k => ?_⟩, rfl⟩
  · show 2048 * 512 ≤ 2 ^ 63
    norm_num
  · have hk : ((2048 * 512 + k) / 512 - 2048) * 512 + (2048 * 512 + k) % 512 = k := by omega
    exact congrArg disk hk

def smallVolume : Volume := smallVolumeOn fun _ => 0

theorem smallVolume_shows : Shows smallVolume smallView :=
  smallVolumeOn_shows fun _ => 0

theorem smallSuperBlock_clusterCount : smallSuperBlock.clusterCount = 8 := by decide

end EntropyOS.Libexfat
