import EntropyOS.Drivers.Block

/-!
# The exFAT block backend

`exfat_pread` and `exfat_pwrite` of `io.c` as the UEFI build compiles them.
They move bytes through one sector buffer, which each round of a loop fills
before it looks at it.
-/

namespace EntropyOS.Exfat

open EntropyOS.Foundation

/-- The machine, and `exfat_partition_offset`. -/
structure Backend where
  system : System
  partitionOffset : UInt64

def onSystem {α : Type} (program : Program System α) : Program Backend α :=
  program.onPart Backend.system fun s system => { s with system := system }

/-- `remaining`, cut to what is left of the sector from `off` on. -/
def chunkSize (remaining off : Nat) : Nat :=
  if remaining > 512 - off then 512 - off else remaining

theorem chunkSize_pos {remaining : Nat} (pos : Nat) (h : 0 < remaining) :
    0 < chunkSize remaining (pos % 512) := by
  unfold chunkSize
  split <;> omega

theorem chunkSize_le (remaining off : Nat) :
    chunkSize remaining off ≤ remaining := by
  unfold chunkSize
  split <;> omega

theorem chunkSize_fits (remaining pos : Nat) :
    pos % 512 + chunkSize remaining (pos % 512) ≤ 512 := by
  unfold chunkSize
  split <;> omega

/-- The loop of `exfat_pread`: the result, and the buffer. -/
def preadLoop (buffer : Buf) (pos remaining bytesRead : Nat) :
    Program System (Int64 × Buf) :=
  if _h : remaining > 0 then do
    let sector := pos / 512
    let off := pos % 512
    let some sectorBuf ← blockReadSector sector | return (-1, buffer)
    let chunk := chunkSize remaining off
    preadLoop
      (buffer.overlay bytesRead chunk fun k => sectorBuf.toBuf (off + k))
      (u64 (pos + chunk)) (remaining - chunk) (bytesRead + chunk)
  else return (Int64.ofNat bytesRead, buffer)
termination_by remaining
decreasing_by
  have hpos := chunkSize_pos pos _h
  omega

def pread (buffer : Buf) (size : UInt64) (offset : Int64) :
    Program Backend (Int64 × Buf) := do
  let pos := offset.toUInt64 + (← get).partitionOffset * 512
  onSystem (preadLoop buffer pos.toNat size.toNat 0)

/-- The loop of `exfat_pwrite`; the result is -1 where a transfer fails. -/
def pwriteLoop (buf : Buf) (pos remaining : Nat) : Program System Int :=
  if _h : remaining > 0 then do
    let sector := pos / 512
    let off := pos % 512
    let some sectorBuf ← blockReadSector sector | return -1
    let chunk := chunkSize remaining off
    let patched := sectorBuf.toBuf.overlay off chunk buf
    if (← blockWriteSector sector (Sector.ofBuf patched)) ≠ 0 then
      return -1
    pwriteLoop (fun k => buf (k + chunk)) (u64 (pos + chunk))
      (remaining - chunk)
  else return 0
termination_by remaining
decreasing_by
  have hpos := chunkSize_pos pos _h
  omega

def pwrite (buffer : Buf) (size : UInt64) (offset : Int64) :
    Program Backend Int64 := do
  let pos := offset.toUInt64 + (← get).partitionOffset * 512
  if (← onSystem (pwriteLoop buffer pos.toNat size.toNat)) ≠ 0 then
    return -1
  return size.toInt64

/-! ## The disk as one run of bytes -/

def bytes (device : Device) : Buf := fun k =>
  device.sectors (k / 512) ⟨k % 512, Nat.mod_lt k (by decide)⟩

theorem bytes_in_sector (device : Device) {sector off : Nat} (h : off < 512) :
    bytes device (512 * sector + off) =
      (device.sectors sector).toBuf off := by
  have hdiv : (512 * sector + off) / 512 = sector := by omega
  have hmod : (512 * sector + off) % 512 = off := by omega
  simp only [bytes, Sector.toBuf, dif_pos h, hdiv, hmod]

/-- Patching part of a sector changes the bytes of that part. -/
theorem bytes_put_overlay (s : System) (sector : Nat) (buf : Buf)
    {off chunk : Nat} (h : off + chunk ≤ 512) :
    bytes (s.put sector (Sector.ofBuf
        ((s.device.sectors sector).toBuf.overlay off chunk buf))).device =
      (bytes s.device).overlay (512 * sector + off) chunk buf := by
  funext k
  have hk : k = 512 * (k / 512) + k % 512 := by omega
  have hlt : k % 512 < 512 := Nat.mod_lt k (by decide)
  rw [hk, bytes_in_sector _ hlt, System.put_sectors]
  unfold Buf.overlay
  by_cases hsector : k / 512 = sector
  · subst hsector
    rw [Function.update_self, Sector.toBuf_ofBuf _ hlt, bytes_in_sector _ hlt]
    by_cases hin : off ≤ k % 512 ∧ k % 512 < off + chunk
    · rw [if_pos hin, if_pos (by omega)]
      exact congrArg buf (by omega)
    · rw [if_neg hin, if_neg (by omega)]
  · rw [Function.update_of_ne hsector, bytes_in_sector _ hlt,
      if_neg (by omega)]

theorem next_position {pos remaining chunk : Nat} (hchunk : chunk ≤ remaining)
    (hwrap : pos + remaining ≤ 18446744073709551616) :
    (u64 (pos + chunk) = pos + chunk ∨ remaining - chunk = 0) ∧
      u64 (pos + chunk) + (remaining - chunk) ≤ 18446744073709551616 := by
  unfold u64
  omega

/-- What one round copies out of its sector are bytes of the disk. -/
theorem overlay_sector (device : Device) (buffer : Buf)
    (start pos remaining : Nat) :
    (buffer.overlay start (chunkSize remaining (pos % 512)) fun k =>
        (device.sectors (pos / 512)).toBuf (pos % 512 + k)) =
      buffer.overlay start (chunkSize remaining (pos % 512)) fun k =>
        bytes device (pos + k) := by
  apply Buf.overlay_congr
  intro k hk
  have hfits := chunkSize_fits remaining pos
  rw [← bytes_in_sector _ (by omega)]
  exact congrArg _ (by omega)

theorem preadLoop_eq {s : System} (h : s.device.FaultFree) (buffer : Buf)
    (pos remaining bytesRead : Nat)
    (hwrap : pos + remaining ≤ 18446744073709551616) :
    preadLoop buffer pos remaining bytesRead s =
      some ((Int64.ofNat (bytesRead + remaining),
        buffer.overlay bytesRead remaining fun k =>
          bytes s.device (pos + k)), s) := by
  induction remaining using Nat.strong_induction_on
    generalizing buffer pos bytesRead with
  | _ remaining ih =>
      rw [preadLoop]
      split
      · next hremaining =>
        have hpos := chunkSize_pos pos hremaining
        have hle := chunkSize_le remaining (pos % 512)
        rw [Program.bind_of_some (blockReadSector_eq h _)]
        simp only [overlay_sector]
        generalize chunkSize remaining (pos % 512) = chunk at *
        obtain ⟨hposition, hrest⟩ := next_position hle hwrap
        rw [ih (remaining - chunk) (by omega) _ _ _ hrest,
          show bytesRead + chunk + (remaining - chunk) =
            bytesRead + remaining by omega]
        have hcopy : (fun k => bytes s.device (pos + (k + chunk))) =
            fun k => bytes s.device (pos + chunk + k) := by
          funext k
          exact congrArg _ (by omega)
        have hwhole := Buf.overlay_append buffer
          (fun k => bytes s.device (pos + k)) bytesRead chunk
          (remaining - chunk)
        rw [Nat.add_sub_cancel' hle, hcopy] at hwhole
        rw [← hwhole]
        rcases hposition with hnext | hlast
        · rw [hnext]
        · rw [hlast, Buf.overlay_zero, Buf.overlay_zero]
      · next hdone =>
        obtain rfl : remaining = 0 := by omega
        rw [Buf.overlay_zero]
        rfl

theorem pwriteLoop_eq {s : System} (h : s.device.FaultFree) (buffer : Buf)
    (pos remaining : Nat) (hwrap : pos + remaining ≤ 18446744073709551616) :
    ∃ s', pwriteLoop buffer pos remaining s = some (0, s') ∧
      s'.device.FaultFree ∧
      bytes s'.device = (bytes s.device).overlay pos remaining buffer := by
  induction remaining using Nat.strong_induction_on
    generalizing buffer pos s with
  | _ remaining ih =>
      rw [pwriteLoop]
      split
      · next hremaining =>
        have hpos := chunkSize_pos pos hremaining
        have hle := chunkSize_le remaining (pos % 512)
        have hchange := bytes_put_overlay s (pos / 512) buffer
          (chunkSize_fits remaining pos)
        rw [show 512 * (pos / 512) + pos % 512 = pos by omega] at hchange
        rw [Program.bind_of_some (blockReadSector_eq h _)]
        simp only [Program.bind_of_some (blockWriteSector_eq h _ _)]
        generalize chunkSize remaining (pos % 512) = chunk at *
        obtain ⟨hposition, hrest⟩ := next_position hle hwrap
        obtain ⟨s', hrun, hfree, hbytes⟩ := ih (remaining - chunk) (by omega)
          (h.put (pos / 512) _) (fun k => buffer (k + chunk)) _ hrest
        refine ⟨s', hrun, hfree, ?_⟩
        have hwhole := Buf.overlay_append (bytes s.device) buffer pos chunk
          (remaining - chunk)
        rw [Nat.add_sub_cancel' hle] at hwhole
        rw [hbytes, hchange, ← hwhole]
        rcases hposition with hnext | hlast
        · rw [hnext]
        · rw [hlast, Buf.overlay_zero, Buf.overlay_zero]
      · next hdone =>
        obtain rfl : remaining = 0 := by omega
        exact ⟨s, rfl, h, (Buf.overlay_zero _ _ _).symm⟩

/-! ## The backend as a file -/

section File

variable {s : Backend} {size : UInt64} {offset : Int64}

/-- The byte of the disk that an offset in the partition stands for. -/
def Backend.start (s : Backend) (offset : Int64) : Nat :=
  s.partitionOffset.toNat * 512 + offset.toNatClampNeg

theorem position_toNat (hoffset : 0 ≤ offset) :
    (offset.toUInt64 + s.partitionOffset * 512).toNat =
      u64 (s.start offset) := by
  have hnat := Int64.toNat_toUInt64_of_le hoffset
  rw [UInt64.toNat_add, UInt64.toNat_mul, hnat, Backend.start, u64]
  have hfactor : (512 : UInt64).toNat = 512 := rfl
  rw [hfactor]
  omega

theorem position_fits (hoffset : 0 ≤ offset)
    (hwrap : s.start offset + size.toNat ≤ 18446744073709551616) :
    (offset.toUInt64 + s.partitionOffset * 512).toNat = s.start offset ∨
      size.toNat = 0 := by
  rw [position_toNat hoffset, u64]
  omega

theorem pread_eq (h : s.system.device.FaultFree) (buffer : Buf)
    (hoffset : 0 ≤ offset)
    (hwrap : s.start offset + size.toNat ≤ 18446744073709551616) :
    pread buffer size offset s =
      some ((size.toInt64, buffer.overlay 0 size.toNat fun k =>
        bytes s.system.device (s.start offset + k)), s) := by
  have hposition : (offset.toUInt64 + s.partitionOffset * 512).toNat +
      size.toNat ≤ 18446744073709551616 := by
    rw [position_toNat hoffset, u64]
    omega
  have hloop := preadLoop_eq h buffer _ size.toNat 0 hposition
  unfold pread
  rw [Program.get_bind]
  rw [onSystem, Program.onPart_of_some hloop, Nat.zero_add]
  have hresult : Int64.ofNat size.toNat = size.toInt64 := by
    rw [← UInt64.toInt64_ofNat', UInt64.ofNat_toNat]
  rw [hresult]
  rcases position_fits hoffset hwrap with hstart | hempty
  · rw [hstart]
  · rw [hempty, Buf.overlay_zero, Buf.overlay_zero]

theorem pwrite_eq (h : s.system.device.FaultFree) (buffer : Buf)
    (hoffset : 0 ≤ offset)
    (hwrap : s.start offset + size.toNat ≤ 18446744073709551616) :
    ∃ system', pwrite buffer size offset s =
        some (size.toInt64, { s with system := system' }) ∧
      system'.device.FaultFree ∧
      bytes system'.device = (bytes s.system.device).overlay
        (s.start offset) size.toNat buffer := by
  have hposition : (offset.toUInt64 + s.partitionOffset * 512).toNat +
      size.toNat ≤ 18446744073709551616 := by
    rw [position_toNat hoffset, u64]
    omega
  obtain ⟨system', hloop, hfree, hbytes⟩ :=
    pwriteLoop_eq h buffer _ size.toNat hposition
  refine ⟨system', ?_, hfree, ?_⟩
  · unfold pwrite
    rw [Program.get_bind,
      onSystem, Program.bind_of_some (Program.onPart_of_some hloop)]
    rfl
  · rw [hbytes]
    rcases position_fits hoffset hwrap with hstart | hempty
    · rw [hstart]
    · rw [hempty, Buf.overlay_zero, Buf.overlay_zero]

/--
A write returns the size, as an `ssize_t`, and replaces its range of bytes and
nothing else; a read returns the size and the bytes of its range.
-/
theorem backend_is_a_file (h : s.system.device.FaultFree) (buffer : Buf)
    (hoffset : 0 ≤ offset)
    (hwrap : s.start offset + size.toNat ≤ 18446744073709551616) :
    (∃ s', pwrite buffer size offset s = some (size.toInt64, s') ∧
      ∀ k, bytes s'.system.device k =
        if s.start offset ≤ k ∧ k < s.start offset + size.toNat then
          buffer (k - s.start offset)
        else bytes s.system.device k) ∧
    ∃ buffer', pread buffer size offset s =
        some ((size.toInt64, buffer'), s) ∧
      ∀ k, buffer' k =
        if k < size.toNat then bytes s.system.device (s.start offset + k)
        else buffer k := by
  constructor
  · obtain ⟨system', hrun, -, hbytes⟩ := pwrite_eq h buffer hoffset hwrap
    exact ⟨_, hrun, fun k => congrFun hbytes k⟩
  · refine ⟨_, pread_eq h buffer hoffset hwrap, fun k => ?_⟩
    simp [Buf.overlay]

/-- A thousand bytes from byte 100 of a partition, over three sectors. -/
theorem three_sectors_written :
    ∃ s', pwrite (fun _ => 7) 1000 100
        ⟨System.startup fun _ => Sector.zero, 2048⟩ = some (1000, s') ∧
      bytes s'.system.device 1048675 = 0 ∧
      bytes s'.system.device 1048676 = 7 ∧
      bytes s'.system.device 1049675 = 7 ∧
      bytes s'.system.device 1049676 = 0 := by
  obtain ⟨⟨s', hrun, hbytes⟩, -⟩ :=
    @backend_is_a_file ⟨System.startup fun _ => Sector.zero, 2048⟩ 1000 100
      (System.startup_faultFree _) (fun _ => 7) (by decide)
      (by simp [Backend.start])
  have hzero : ∀ k, bytes (System.startup fun _ => Sector.zero).device k = 0 :=
    fun _ => rfl
  exact ⟨s', hrun, by simp [hbytes, hzero, Backend.start],
    by simp [hbytes, Backend.start], by simp [hbytes, Backend.start],
    by simp [hbytes, hzero, Backend.start]⟩

end File

end EntropyOS.Exfat
