import EntropyOS.Drivers.UsbHost

/-!
# The mass-storage driver

`ms_read_blocks` and `ms_write_blocks` of `mass_storage.c` over the emulated
host.  A transfer is a CBW, the data, and a CSW with the tag of the CBW.
-/

namespace EntropyOS.Usb

open EntropyOS.Foundation

def cbwPacket (tag : Nat) (flags : UInt8) (cdb : Buf) (cdbLen dataLen : Nat) :
    Buf := fun k =>
  if k < 4 then byteOf 0x43425355 k
  else if k < 8 then byteOf tag (k - 4)
  else if k < 12 then byteOf dataLen (k - 8)
  else if k = 12 then flags
  else if k = 14 then UInt8.ofNat cdbLen
  else if 15 ≤ k ∧ k < 15 + cdbLen then cdb (k - 15)
  else 0

def sendCbw (tag : Nat) (flags : UInt8) (cdb : Buf) (cdbLen dataLen : Nat) :
    Program Host Int := do
  if cdbLen > 16 then
    return -1
  let (status, _) ← bulkOut (cbwPacket tag flags cdb cdbLen dataLen) 31 0
  return status

/-- `recv_csw`, with the `struct csw` before and after. -/
def recvCsw (expectedTag : Nat) (out : Buf) : Program Host (Int × Buf) := do
  let (r, out, actual) ← bulkIn out 13 0
  if r ≠ 0 then
    return (r, out)
  if actual < 13 then
    return (-1, out)
  if readLe out 0 4 ≠ 0x53425355 then
    return (-1, out)
  if readLe out 4 4 ≠ expectedTag then
    return (-1, out)
  return (0, out)

def blockCommand (opcode : UInt8) (lba count : Nat) : Buf :=
  Buf.ofList [opcode, 0, byteOf lba 3, byteOf lba 2, byteOf lba 1, byteOf lba 0,
    0, byteOf count 1, byteOf count 0, 0]

/-- What lies on the stack where a `struct csw` is declared. -/
def stackBytes : Buf := fun _ => 0

/-- `ms_read_blocks`, with the buffer before and after. -/
def msReadBlocks (lba count : Nat) (buf : Buf) : Program Host (Int × Buf) := do
  let ms := (← get).ms
  if ¬ ms.present then
    return (-1, buf)
  if count = 0 then
    return (0, buf)
  if lba / 4294967296 ≠ 0 then
    return (-1, buf)
  let dataLen := u32 (count * ms.blockSize)
  if (← sendCbw 0xA5 0x80 (blockCommand 0x28 lba count) 10 dataLen) ≠ 0 then
    return (-1, buf)
  let (status, buf, _) ← bulkIn buf dataLen 0
  if status ≠ 0 then
    return (-1, buf)
  let (status, _) ← recvCsw 0xA5 stackBytes
  if status ≠ 0 then
    return (-1, buf)
  return (0, buf)

def msWriteBlocks (lba count : Nat) (buf : Buf) : Program Host Int := do
  let ms := (← get).ms
  if ¬ ms.present then
    return -1
  if count = 0 then
    return 0
  if lba / 4294967296 ≠ 0 then
    return -1
  let dataLen := u32 (count * ms.blockSize)
  if (← sendCbw 0xB6 0x00 (blockCommand 0x2A lba count) 10 dataLen) ≠ 0 then
    return -1
  let (status, _) ← bulkOut buf dataLen 0
  if status ≠ 0 then
    return -1
  let (status, _) ← recvCsw 0xB6 stackBytes
  if status ≠ 0 then
    return -1
  return 0

/-- The driver is initialised, over a SATA disk that works. -/
structure Host.Ready (s : Host) : Prop where
  faultFree : s.system.device.FaultFree
  sataPresent : s.system.device.sataPresent = true
  present : s.ms.present = true
  driverBlockSize : s.ms.blockSize = 512
  emulatorBlockSize : s.usbms.blockSize = 512

/-- The emulation over a block device that works, whether initialised or not. -/
structure Host.Backed (s : Host) : Prop where
  faultFree : s.system.device.FaultFree
  driverBlockSize : s.ms.blockSize = 512
  emulatorBlockSize : s.usbms.blockSize = 512

theorem Host.Ready.backed {s : Host} (h : s.Ready) : s.Backed :=
  ⟨h.faultFree, h.driverBlockSize, h.emulatorBlockSize⟩

/-! ## Commands -/

theorem cbwPacket_isCbw (tag : Nat) (flags : UInt8) (cdb : Buf)
    (cdbLen dataLen : Nat) : IsCbw (cbwPacket tag flags cdb cdbLen dataLen) 31 := by
  refine ⟨le_rfl, ?_⟩
  have hbytes : ∀ i < 4,
      cbwPacket tag flags cdb cdbLen dataLen (0 + i) = byteOf 0x43425355 i := by
    intro i hi
    rw [Nat.zero_add]
    exact if_pos hi
  rw [readLe_of_bytes hbytes]
  rfl

theorem sendCbw_eq (tag : Nat) (flags : UInt8) (cdb : Buf) (dataLen : Nat)
    (s : Host) :
    sendCbw tag flags cdb 10 dataLen s = some (0, { s with
      usbms := s.usbms.acceptCbw (cbwPacket tag flags cdb 10 dataLen) }) := by
  unfold sendCbw bulkOut
  rw [if_neg (by decide), if_pos (cbwPacket_isCbw tag flags cdb 10 dataLen)]
  rfl

theorem acceptCbw_tag (u : Usbms) {tag : Nat} (flags : UInt8) (cdb : Buf)
    (dataLen : Nat) (h : tag < 4294967296) :
    (u.acceptCbw (cbwPacket tag flags cdb 10 dataLen)).cbwTag = tag := by
  have hbytes : ∀ i < 4,
      cbwPacket tag flags cdb 10 dataLen (4 + i) = byteOf tag i := by
    intro i hi
    interval_cases i <;> rfl
  change readLe _ 4 4 = tag
  rw [readLe_of_bytes hbytes]
  exact Nat.mod_eq_of_lt h

theorem acceptCbw_cdb (u : Usbms) (tag : Nat) (flags : UInt8) (cdb : Buf)
    (dataLen : Nat) (i : Fin 16) (h : i.val < 10) :
    (u.acceptCbw (cbwPacket tag flags cdb 10 dataLen)).cbwCdb i = cdb i := by
  change cbwPacket tag flags cdb 10 dataLen (15 + i) = cdb i
  unfold cbwPacket
  repeat rw [if_neg (by omega)]
  rw [if_pos (by omega), Nat.add_sub_cancel_left]

theorem top_bit_clear (x : UInt8) : x &&& 0x80 = 0 ↔ x.toNat < 128 := by
  have hall : ∀ n : Fin 256, UInt8.ofNat n &&& 0x80 = 0 ↔ n.val < 128 := by
    decide +kernel
  have hx := hall ⟨x.toNat, x.toNat_lt⟩
  rwa [UInt8.ofNat_toNat] at hx

theorem byteOf_toNat (n i : Nat) : (byteOf n i).toNat = n / 256 ^ i % 256 := by
  simp [byteOf]

theorem acceptCbw_command (u : Usbms) (tag : Nat) (flags opcode : UInt8)
    {lba : Nat} (count dataLen : Nat) (hlba : lba < 4294967296) :
    let v := u.acceptCbw
      (cbwPacket tag flags (blockCommand opcode lba count) 10 dataLen)
    v.cbwFlags = flags ∧ v.cbwCdb 0 = opcode ∧ v.cbwCdb 2 = byteOf lba 3 ∧
      v.lba = lba ∧ v.count = count % 65536 := by
  intro v
  have hcdb : ∀ i : Fin 16, i.val < 10 →
      v.cbwCdb i = blockCommand opcode lba count i :=
    acceptCbw_cdb u tag flags _ dataLen
  refine ⟨rfl, hcdb 0 (by decide), hcdb 2 (by decide), ?_, ?_⟩
  · simp only [Usbms.lba, hcdb 2 (by decide), hcdb 3 (by decide),
      hcdb 4 (by decide), hcdb 5 (by decide)]
    change (byteOf lba 3).toNat * 16777216 + (byteOf lba 2).toNat * 65536 +
      (byteOf lba 1).toNat * 256 + (byteOf lba 0).toNat = lba
    simp only [byteOf_toNat]
    omega
  · simp only [Usbms.count, hcdb 7 (by decide), hcdb 8 (by decide)]
    change (byteOf count 1).toNat * 256 + (byteOf count 0).toNat = count % 65536
    simp only [byteOf_toNat]
    omega

/-! ## Data -/

def blockOf (buf : Buf) (i : Nat) : Sector := Sector.ofBuf fun k => buf (512 * i + k)

/-- The disk with `count` blocks of a buffer, from block `i` on, at `lba`. -/
def storeBlocks (sectors : Nat → Sector) (lba count : Nat) (buf : Buf)
    (i : Nat) : Nat → Sector := fun k =>
  if lba + i ≤ k ∧ k < lba + i + count then blockOf buf (k - lba)
  else sectors k

theorem storeBlocks_succ (sectors : Nat → Sector) (lba count : Nat) (buf : Buf)
    (i : Nat) :
    storeBlocks (Function.update sectors (lba + i) (blockOf buf i)) lba count
        buf (i + 1) =
      storeBlocks sectors lba (count + 1) buf i := by
  funext k
  unfold storeBlocks
  by_cases hk : k = lba + i
  · subst hk
    rw [if_neg (by omega), if_pos (by omega), Function.update_self,
      Nat.add_sub_cancel_left]
  · rw [Function.update_of_ne hk]
    by_cases hin : lba + (i + 1) ≤ k ∧ k < lba + (i + 1) + count
    · rw [if_pos hin, if_pos (by omega)]
    · rw [if_neg hin, if_neg (by omega)]

theorem writeBlocks_eq {s : System} (h : s.device.FaultFree) (lba : Nat)
    (src : Buf) (count i : Nat) (hsize : i + count ≤ 65535) :
    ∃ s', writeBlocks lba 512 src count i s = some (0, s') ∧
      s'.device.FaultFree ∧
      s'.device.sectors = storeBlocks s.device.sectors lba count src i := by
  induction count generalizing i s with
  | zero =>
      refine ⟨s, rfl, h, ?_⟩
      funext k
      exact (if_neg (by omega)).symm
  | succ count ih =>
      have hoffset : u32 (i * 512) = 512 * i := by
        rw [u32_of_lt (by omega), Nat.mul_comm]
      obtain ⟨s', hrest, hfree, hsectors⟩ :=
        ih (h.put (lba + i) (blockOf src i)) (i + 1) (by omega)
      refine ⟨s', ?_, hfree, ?_⟩
      · rw [writeBlocks, hoffset]
        simp only [Program.bind_of_some (blockWriteSector_eq h _ _)]
        exact hrest
      · rw [hsectors, System.put_sectors, storeBlocks_succ]

/-- A buffer with `count` blocks from `lba` on, in place from block `i` on. -/
def loadBlocks (sectors : Nat → Sector) (lba count : Nat) (buf : Buf)
    (i : Nat) : Buf := fun k =>
  if 512 * i ≤ k ∧ k < 512 * (i + count) then
    (sectors (lba + k / 512)).toBuf (k % 512)
  else buf k

theorem loadBlocks_succ (sectors : Nat → Sector) (lba count : Nat) (buf : Buf)
    (i : Nat) :
    loadBlocks sectors lba count
        (buf.overlay (512 * i) 512 (sectors (lba + i)).toBuf) (i + 1) =
      loadBlocks sectors lba (count + 1) buf i := by
  funext k
  unfold loadBlocks Buf.overlay
  by_cases hfirst : 512 * i ≤ k ∧ k < 512 * i + 512
  · have hdiv : k / 512 = i := by omega
    have hmod : k % 512 = k - 512 * i := by omega
    rw [if_neg (by omega), if_pos hfirst, if_pos (by omega), hdiv, hmod]
  · rw [if_neg hfirst]
    by_cases hin : 512 * (i + 1) ≤ k ∧ k < 512 * (i + 1 + count)
    · rw [if_pos hin, if_pos (by omega)]
    · rw [if_neg hin, if_neg (by omega)]

theorem readBlocks_eq {s : System} (h : s.device.FaultFree) (lba : Nat)
    (buf : Buf) (count i : Nat) (hsize : i + count ≤ 65535) :
    readBlocks lba 512 count i buf s =
      some ((0, loadBlocks s.device.sectors lba count buf i), s) := by
  induction count generalizing i buf with
  | zero =>
      have hempty : loadBlocks s.device.sectors lba 0 buf i = buf := by
        funext k
        exact if_neg (by omega)
      rw [hempty]
      rfl
  | succ count ih =>
      have hoffset : u32 (i * 512) = 512 * i := by
        rw [u32_of_lt (by omega), Nat.mul_comm]
      rw [readBlocks, Program.bind_of_some (blockReadSector_eq h _)]
      simp only
      rw [hoffset, ih _ (i + 1) (by omega), loadBlocks_succ]

/-! ## Status -/

theorem recvCsw_prepared (s : Host) (u : Usbms) {tag : Nat} (out : Buf)
    (htag : u.cbwTag = tag) (hlt : tag < 4294967296) :
    ∃ out', recvCsw tag out { s with usbms := u.prepareCsw } =
      some ((0, out'),
        { s with usbms := { u.prepareCsw with expectCsw := false } }) := by
  have hsignature : ∀ i < 4,
      (out.overlay 0 13 u.prepareCsw.cswPacket) (0 + i) =
        byteOf 0x53425355 i := by
    intro i hi
    interval_cases i <;> rfl
  have hbytes : ∀ i < 4,
      (out.overlay 0 13 u.prepareCsw.cswPacket) (4 + i) = byteOf tag i := by
    intro i hi
    subst htag
    interval_cases i <;> rfl
  refine ⟨out.overlay 0 13 u.prepareCsw.cswPacket, ?_⟩
  have hin : bulkIn out 13 0 { s with usbms := u.prepareCsw } =
      some ((0, out.overlay 0 13 u.prepareCsw.cswPacket, 13),
        { s with usbms := { u.prepareCsw with expectCsw := false } }) := by
    unfold bulkIn
    rw [Program.get_bind]
    have hpending : ∀ opcode, ¬ u.prepareCsw.ReadPending opcode := by
      rintro opcode ⟨hvalid, -⟩
      exact Bool.false_ne_true hvalid
    simp only [if_neg (hpending _)]
    rw [if_pos ⟨rfl, le_rfl⟩]
    rfl
  unfold recvCsw
  rw [Program.bind_of_some hin]
  simp only
  rw [if_neg (by decide), if_neg (by decide), readLe_of_bytes hsignature,
    if_neg (by decide), readLe_of_bytes hbytes,
    if_neg (not_not_intro (Nat.mod_eq_of_lt (show tag < 256 ^ 4 from hlt)))]
  rfl

theorem recvCsw_refused {s : Host} (hcsw : s.usbms.expectCsw = false)
    (hsize : s.usbms.blockSize = 512) (tag : Nat) (out : Buf) :
    ∃ r out' s', recvCsw tag out s = some ((r, out'), s') ∧ r ≠ 0 := by
  have hin : ∃ r out' actual s', bulkIn out 13 0 s =
      some ((r, out', actual), s') ∧ (r ≠ 0 ∨ actual < 13) := by
    unfold bulkIn
    rw [Program.get_bind]
    by_cases hcapacity : s.usbms.ReadPending 0x25
    · simp only [if_pos hcapacity]
      exact ⟨_, _, _, _, rfl, Or.inr (by decide)⟩
    by_cases hread : s.usbms.ReadPending 0x28
    · simp only [if_neg hcapacity, if_pos hread]
      split
      · exact ⟨_, _, _, _, rfl, Or.inl (by decide)⟩
      split
      · exact ⟨_, _, _, _, rfl, Or.inl (by decide)⟩
      next hlen =>
        -- a packet of 13 bytes holds no block
        have hcount : s.usbms.count = 0 := by
          have hbound : s.usbms.count < 65536 := by
            have h7 := (s.usbms.cbwCdb 7).toNat_lt
            have h8 := (s.usbms.cbwCdb 8).toNat_lt
            unfold Usbms.count
            omega
          rw [hsize, u32_of_lt (by omega)] at hlen
          omega
        rw [hcount, Nat.zero_mul]
        exact ⟨_, _, _, _, rfl, Or.inr (by decide)⟩
    · simp only [if_neg hcapacity, if_neg hread]
      rw [if_neg (by simp [hcsw])]
      exact ⟨_, _, _, _, rfl, Or.inr (by decide)⟩
  obtain ⟨r, out', actual, s', hrun, hbad⟩ := hin
  unfold recvCsw
  rw [Program.bind_of_some hrun]
  simp only
  by_cases hr : r = 0
  · rw [if_neg (not_not_intro hr), if_pos (hbad.resolve_left (not_not_intro hr))]
    exact ⟨_, _, _, rfl, by decide⟩
  · rw [if_pos hr]
    exact ⟨_, _, _, rfl, hr⟩

/-! ## Transfers -/

theorem not_capacity {u : Usbms} (hopcode : u.cbwCdb 0 = 0x28) :
    ¬ u.ReadPending 0x25 := by
  rintro ⟨-, -, hcapacity⟩
  rw [hopcode] at hcapacity
  exact absurd hcapacity (by decide)

theorem read_pending {u : Usbms} (hvalid : u.cbwValid = true)
    (hflags : u.cbwFlags = 0x80) (hopcode : u.cbwCdb 0 = 0x28) :
    u.ReadPending 0x28 := by
  refine ⟨hvalid, ?_, hopcode⟩
  rw [hflags]
  decide

section Transfers

variable {s : Host} {lba count : Nat} (h : s.Backed)
  (hpresent : s.ms.present = true) (hcount : 1 ≤ count)
  (hlba : lba < 4294967296)

/-- The data of the blocks in the command fits the length in the CBW. -/
theorem moved_le_length (count : Nat) :
    u32 (count % 65536 * 512) ≤ u32 (count * 512) := by
  unfold u32
  omega

section Sent

include h hpresent hcount hlba

theorem msWriteBlocks_sent (buf : Buf) :
    msWriteBlocks lba count buf s = (do
      let (status, _) ← bulkOut buf (u32 (count * 512)) 0
      if status ≠ 0 then
        return -1
      let (status, _) ← recvCsw 0xB6 stackBytes
      if status ≠ 0 then
        return -1
      return 0 : Program Host Int)
        { s with usbms := s.usbms.acceptCbw (cbwPacket 0xB6 0
          (blockCommand 0x2A lba count) 10 (u32 (count * 512))) } := by
  unfold msWriteBlocks
  rw [Program.get_bind]
  simp only
  rw [if_neg (not_not_intro hpresent), if_neg (by omega), if_neg (by omega),
    h.driverBlockSize, Program.bind_of_some (sendCbw_eq _ _ _ _ s),
    if_neg (by decide)]

theorem msReadBlocks_sent (out : Buf) :
    msReadBlocks lba count out s = (do
      let (status, buf, _) ← bulkIn out (u32 (count * 512)) 0
      if status ≠ 0 then
        return (-1, buf)
      let (status, _) ← recvCsw 0xA5 stackBytes
      if status ≠ 0 then
        return (-1, buf)
      return (0, buf) : Program Host (Int × Buf))
        { s with usbms := s.usbms.acceptCbw (cbwPacket 0xA5 0x80
          (blockCommand 0x28 lba count) 10 (u32 (count * 512))) } := by
  unfold msReadBlocks
  rw [Program.get_bind]
  simp only
  rw [if_neg (not_not_intro hpresent), if_neg (by omega), if_neg (by omega),
    h.driverBlockSize, Program.bind_of_some (sendCbw_eq _ _ _ _ s),
    if_neg (by decide)]

theorem msWriteBlocks_eq {buf : Buf} (hdata : ¬ IsCbw buf (u32 (count * 512))) :
    ∃ s', msWriteBlocks lba count buf s = some (0, s') ∧ s'.Backed ∧
      s'.ms = s.ms ∧ s'.system.device.sectors =
        storeBlocks s.system.device.sectors lba (count % 65536) buf 0 := by
  obtain ⟨hflags, hopcode, -, hblock, hcounts⟩ := acceptCbw_command s.usbms
    0xB6 0 0x2A count (u32 (count * 512)) hlba
  have htag := acceptCbw_tag s.usbms 0 (blockCommand 0x2A lba count)
    (u32 (count * 512)) (show 0xB6 < 4294967296 by decide)
  have hvalid : (s.usbms.acceptCbw (cbwPacket 0xB6 0
      (blockCommand 0x2A lba count) 10 (u32 (count * 512)))).cbwValid = true :=
    rfl
  have hsize : (s.usbms.acceptCbw (cbwPacket 0xB6 0
      (blockCommand 0x2A lba count) 10 (u32 (count * 512)))).blockSize = 512 :=
    h.emulatorBlockSize
  rw [msWriteBlocks_sent h hpresent hcount hlba]
  generalize s.usbms.acceptCbw _ = u at *
  obtain ⟨system', hwrite, hfree, hsectors⟩ :=
    writeBlocks_eq h.faultFree lba buf (count % 65536) 0 (by omega)
  have hout : bulkOut buf (u32 (count * 512)) 0 { s with usbms := u } =
      some ((0, u32 (count * 512)), ⟨system', u.prepareCsw, s.ms⟩) := by
    unfold bulkOut
    rw [if_neg hdata,
      Program.get_bind, if_pos ⟨hvalid, hflags, hopcode⟩]
    simp only
    rw [hblock, hcounts, hsize, Program.bind_of_some
      (onSystem_of_some (s := { s with usbms := u }) hwrite)]
    rfl
  obtain ⟨out', hcsw⟩ := recvCsw_prepared ⟨system', u, s.ms⟩ u stackBytes htag
    (by decide)
  rw [Program.bind_of_some hout]
  simp only
  rw [if_neg (by decide), Program.bind_of_some hcsw]
  exact ⟨_, rfl, ⟨hfree, h.driverBlockSize, hsize⟩, rfl, hsectors⟩

/-- Data that is taken for a CBW is not written, and the write fails. -/
theorem msWriteBlocks_command {buf : Buf}
    (hdata : IsCbw buf (u32 (count * 512))) :
    ∃ s', msWriteBlocks lba count buf s = some (-1, s') := by
  rw [msWriteBlocks_sent h hpresent hcount hlba]
  have hout : ∀ s₁ : Host, bulkOut buf (u32 (count * 512)) 0 s₁ =
      some ((0, u32 (count * 512)),
        { s₁ with usbms := s₁.usbms.acceptCbw buf }) := by
    intro s₁
    unfold bulkOut
    rw [if_pos hdata]
    rfl
  rw [Program.bind_of_some (hout _)]
  simp only
  rw [if_neg (by decide)]
  obtain ⟨r, out', s', hcsw, hr⟩ := recvCsw_refused
    (s := { s with usbms := (s.usbms.acceptCbw (cbwPacket 0xB6 0
      (blockCommand 0x2A lba count) 10 (u32 (count * 512)))).acceptCbw buf })
    rfl h.emulatorBlockSize 0xB6 stackBytes
  rw [Program.bind_of_some hcsw]
  simp only
  rw [if_pos hr]
  exact ⟨s', rfl⟩

theorem msReadBlocks_eq (hlow : lba < 2147483648) (out : Buf) :
    ∃ s', msReadBlocks lba count out s = some ((0,
      loadBlocks s.system.device.sectors lba (count % 65536) out 0), s') := by
  obtain ⟨hflags, hopcode, hhigh, hblock, hcounts⟩ := acceptCbw_command s.usbms
    0xA5 0x80 0x28 count (u32 (count * 512)) hlba
  have htag := acceptCbw_tag s.usbms 0x80 (blockCommand 0x28 lba count)
    (u32 (count * 512)) (show 0xA5 < 4294967296 by decide)
  have hvalid : (s.usbms.acceptCbw (cbwPacket 0xA5 0x80
      (blockCommand 0x28 lba count) 10 (u32 (count * 512)))).cbwValid = true :=
    rfl
  have hsize : (s.usbms.acceptCbw (cbwPacket 0xA5 0x80
      (blockCommand 0x28 lba count) 10 (u32 (count * 512)))).blockSize = 512 :=
    h.emulatorBlockSize
  rw [msReadBlocks_sent h hpresent hcount hlba]
  generalize s.usbms.acceptCbw _ = u at *
  have hread := readBlocks_eq h.faultFree lba out (count % 65536) 0 (by omega)
  have htop : u.cbwCdb 2 &&& 0x80 = 0 := by
    rw [hhigh, top_bit_clear, byteOf_toNat]
    omega
  have hin : bulkIn out (u32 (count * 512)) 0 { s with usbms := u } =
      some ((0, loadBlocks s.system.device.sectors lba (count % 65536) out 0,
        u32 (count % 65536 * 512)), { s with usbms := u.prepareCsw }) := by
    unfold bulkIn
    rw [Program.get_bind]
    simp only
    rw [if_neg (not_capacity hopcode),
      if_pos (read_pending hvalid hflags hopcode),
      if_neg (not_not_intro htop), hcounts, hsize,
      if_neg (Nat.not_lt.mpr (moved_le_length count)), hblock,
      Program.bind_of_some
        (onSystem_of_some (s := { s with usbms := u }) hread)]
    rfl
  obtain ⟨out', hcsw⟩ := recvCsw_prepared s u stackBytes htag (by decide)
  rw [Program.bind_of_some hin]
  simp only
  rw [if_neg (by decide), Program.bind_of_some hcsw]
  exact ⟨_, rfl⟩

/-- The emulator refuses to read where the top bit of the address is set. -/
theorem msReadBlocks_high (hhigh : 2147483648 ≤ lba) (out : Buf) :
    ∃ s', msReadBlocks lba count out s = some ((-1, out), s') := by
  obtain ⟨hflags, hopcode, hbyte, -, -⟩ := acceptCbw_command s.usbms
    0xA5 0x80 0x28 count (u32 (count * 512)) hlba
  have hvalid : (s.usbms.acceptCbw (cbwPacket 0xA5 0x80
      (blockCommand 0x28 lba count) 10 (u32 (count * 512)))).cbwValid = true :=
    rfl
  rw [msReadBlocks_sent h hpresent hcount hlba]
  generalize s.usbms.acceptCbw _ = u at *
  have htop : u.cbwCdb 2 &&& 0x80 ≠ 0 := by
    rw [Ne, hbyte, top_bit_clear, byteOf_toNat]
    omega
  have hin : bulkIn out (u32 (count * 512)) 0 { s with usbms := u } =
      some ((-1, out, 0), { s with usbms := u }) := by
    unfold bulkIn
    rw [Program.get_bind]
    simp only
    rw [if_neg (not_capacity hopcode),
      if_pos (read_pending hvalid hflags hopcode), if_pos htop]
    rfl
  rw [Program.bind_of_some hin]
  exact ⟨_, rfl⟩

end Sent

end Transfers

/--
A write of `count` blocks that returns 0, stores the buffer in exactly its
sectors, and is read back.
-/
def RoundTrip (s : Host) (lba count : Nat) (buf out : Buf) : Prop :=
  ∃ s' out' s'', msWriteBlocks lba count buf s = some (0, s') ∧
    (∀ i < count, s'.system.device.sectors (lba + i) = blockOf buf i) ∧
    (∀ k, k < lba ∨ lba + count ≤ k →
      s'.system.device.sectors k = s.system.device.sectors k) ∧
    msReadBlocks lba count out s' = some ((0, out'), s'') ∧
    ∀ k < 512 * count, out' k = buf k

/--
Blocks are stored and read back exactly where the address is below `2 ^ 31`
and the data does not start as a CBW does.
-/
theorem roundTrip_iff {s : Host} (h : s.Ready) {lba count : Nat}
    (hcount : 1 ≤ count) (hmax : count ≤ 65535)
    (hend : lba + count ≤ 4294967296) (buf out : Buf) :
    RoundTrip s lba count buf out ↔
      lba < 2147483648 ∧ readLe buf 0 4 ≠ 0x43425355 := by
  have hmod : count % 65536 = count := Nat.mod_eq_of_lt (by omega)
  have hcbw : IsCbw buf (u32 (count * 512)) ↔ readLe buf 0 4 = 0x43425355 := by
    rw [IsCbw, u32_of_lt (by omega)]
    exact and_iff_right (by omega)
  constructor
  · rintro ⟨s', out', s'', hwrite, -, -, hread, -⟩
    have hdata : readLe buf 0 4 ≠ 0x43425355 := by
      intro hdata
      obtain ⟨s₁, hfails⟩ := msWriteBlocks_command h.backed h.present hcount
        (show lba < 4294967296 by omega) (hcbw.mpr hdata)
      rw [hfails] at hwrite
      cases hwrite
    refine ⟨?_, hdata⟩
    by_contra hhigh
    obtain ⟨s₁, hwritten, hbacked, hms, -⟩ := msWriteBlocks_eq h.backed h.present
      hcount (show lba < 4294967296 by omega) (mt hcbw.mp hdata)
    rw [hwritten] at hwrite
    cases hwrite
    obtain ⟨s₂, hfails⟩ := msReadBlocks_high hbacked
      ((congrArg _ hms).trans h.present) hcount
      (show lba < 4294967296 by omega) (by omega) out
    rw [hfails] at hread
    cases hread
  · rintro ⟨hlow, hdata⟩
    obtain ⟨s', hwrite, hbacked, hms, hsectors⟩ := msWriteBlocks_eq h.backed
      h.present hcount (show lba < 4294967296 by omega) (mt hcbw.mp hdata)
    obtain ⟨s'', hread⟩ := msReadBlocks_eq hbacked
      ((congrArg _ hms).trans h.present) hcount
      (show lba < 4294967296 by omega) hlow out
    rw [hmod] at hread hsectors
    refine ⟨s', _, s'', hwrite, ?_, ?_, hread, ?_⟩
    · intro i hi
      rw [hsectors, storeBlocks, if_pos (by omega), Nat.add_sub_cancel_left]
    · intro k hk
      rw [hsectors, storeBlocks, if_neg (by omega)]
    · intro k hk
      rw [loadBlocks, if_pos (by omega), hsectors, storeBlocks,
        if_pos (by omega), Nat.add_sub_cancel_left, blockOf,
        Sector.toBuf_ofBuf _ (Nat.mod_lt k (by decide)), Nat.div_add_mod]

/-- The host once the driver is initialised, over an empty disk. -/
def Host.startup : Host where
  system := System.startup fun _ => Sector.zero
  usbms := { Usbms.startup with blockSize := 512 }
  ms := ⟨512, true, 0⟩

theorem Host.startup_ready : Host.startup.Ready :=
  ⟨System.startup_faultFree _, rfl, rfl, rfl, rfl⟩

theorem three_blocks_round_trip :
    RoundTrip Host.startup 2048 3 (fun _ => 7) fun _ => 0 :=
  (roundTrip_iff Host.startup_ready (by decide) (by decide) (by decide) _ _).mpr
    ⟨by decide, by decide⟩

/-- A block that starts with `USBC` is not written. -/
theorem command_block_not_written :
    let buf := Buf.ofList [0x55, 0x53, 0x42, 0x43]
    (∃ s', msWriteBlocks 0 1 buf Host.startup = some (-1, s')) ∧
      ¬ RoundTrip Host.startup 0 1 buf fun _ => 0 := by
  intro buf
  obtain ⟨s', hfails⟩ := msWriteBlocks_command Host.startup_ready.backed rfl
    (show 1 ≤ 1 by decide) (show 0 < 4294967296 by decide)
    (show IsCbw buf (u32 (1 * 512)) from
      ⟨by decide, by simp [readLe, buf, Buf.ofList]⟩)
  refine ⟨⟨s', hfails⟩, ?_⟩
  rintro ⟨s'', out', s₃, hwrite, -⟩
  rw [hfails] at hwrite
  cases hwrite

/-! ## Transfers of any size -/

/--
A read that returns 0 fills the buffer with all of its sectors, and a write
that returns 0 has stored the buffer in all of them.
-/
def MovesEveryBlock (s : Host) (lba count : Nat) (buf out : Buf) : Prop :=
  (∀ out' s', msReadBlocks lba count out s = some ((0, out'), s') →
    ∀ k < 512 * count,
      out' k = (s.system.device.sectors (lba + k / 512)).toBuf (k % 512)) ∧
  ∀ s', msWriteBlocks lba count buf s = some (0, s') →
    ∀ i < count, s'.system.device.sectors (lba + i) = blockOf buf i

section AnySize

variable {s : Host} {lba count : Nat}

/-- The checks that both calls make, with their results and the rest of the call. -/
theorem checks_refused {α : Type} {refuse nothing rest : Program Host α}
    (h : s.ms.present = false ∨ 4294967296 ≤ lba ∧ 1 ≤ count) :
    (if ¬ s.ms.present = true then refuse
      else if count = 0 then nothing
      else if lba / 4294967296 ≠ 0 then refuse else rest) = refuse := by
  rcases h with habsent | ⟨hlba, hcount⟩
  · rw [if_pos (by simp [habsent])]
  · by_cases hpresent : s.ms.present = true
    · rw [if_neg (not_not_intro hpresent), if_neg (by omega), if_pos (by omega)]
    · rw [if_pos hpresent]

theorem msReadBlocks_refused (count : Nat) (out : Buf)
    (h : s.ms.present = false ∨ 4294967296 ≤ lba ∧ 1 ≤ count) :
    msReadBlocks lba count out s = some ((-1, out), s) := by
  unfold msReadBlocks
  rw [Program.get_bind]
  exact congrFun (checks_refused h) s

theorem msWriteBlocks_refused (count : Nat) (buf : Buf)
    (h : s.ms.present = false ∨ 4294967296 ≤ lba ∧ 1 ≤ count) :
    msWriteBlocks lba count buf s = some (-1, s) := by
  unfold msWriteBlocks
  rw [Program.get_bind]
  exact congrFun (checks_refused h) s

theorem msReadBlocks_moves_iff (h : s.Backed) (out : Buf) :
    (∀ out' s', msReadBlocks lba count out s = some ((0, out'), s') →
      ∀ k < 512 * count,
        out' k = (s.system.device.sectors (lba + k / 512)).toBuf (k % 512)) ↔
    s.ms.present = false ∨ 2147483648 ≤ lba ∨
      ∀ k, 512 * (count % 65536) ≤ k → k < 512 * count →
        out k = (s.system.device.sectors (lba + k / 512)).toBuf (k % 512) := by
  by_cases hrefused : s.ms.present = false ∨ 4294967296 ≤ lba ∧ 1 ≤ count
  · rw [msReadBlocks_refused count out hrefused]
    constructor
    · rintro -
      rcases hrefused with habsent | ⟨hlba, -⟩
      · exact Or.inl habsent
      · exact Or.inr (Or.inl (by omega))
    · rintro - out' s' hrun
      cases hrun
  rw [not_or, Bool.not_eq_false] at hrefused
  obtain ⟨hpresent, hbounds⟩ := hrefused
  rcases Nat.eq_zero_or_pos count with rfl | hcount
  · constructor
    · rintro -
      exact Or.inr (Or.inr fun k _ hk => absurd hk (by omega))
    · rintro - out' s' - k hk
      exact absurd hk (by omega)
  have hlba : lba < 4294967296 := by omega
  by_cases hhigh : 2147483648 ≤ lba
  · obtain ⟨s₁, hrun⟩ := msReadBlocks_high h hpresent hcount hlba hhigh out
    rw [hrun]
    constructor
    · rintro -
      exact Or.inr (Or.inl hhigh)
    · rintro - out' s' hzero
      cases hzero
  obtain ⟨s₁, hrun⟩ :=
    msReadBlocks_eq h hpresent hcount hlba (Nat.lt_of_not_le hhigh) out
  rw [hrun]
  constructor
  · intro hmoves
    refine Or.inr (Or.inr fun k hlow hk => ?_)
    have hbyte := hmoves _ _ rfl k hk
    rwa [loadBlocks, if_neg (by omega)] at hbyte
  · rintro (habsent | hhigh' | htail) out' s' hrun' k hk
    · rw [hpresent] at habsent
      cases habsent
    · exact absurd hhigh' hhigh
    · cases hrun'
      unfold loadBlocks
      split
      · rfl
      · exact htail k (by omega) hk

theorem msWriteBlocks_moves_iff (h : s.Backed) (buf : Buf) :
    (∀ s', msWriteBlocks lba count buf s = some (0, s') →
      ∀ i < count, s'.system.device.sectors (lba + i) = blockOf buf i) ↔
    s.ms.present = false ∨ 4294967296 ≤ lba ∨ IsCbw buf (u32 (count * 512)) ∨
      ∀ i, count % 65536 ≤ i → i < count →
        s.system.device.sectors (lba + i) = blockOf buf i := by
  by_cases hrefused : s.ms.present = false ∨ 4294967296 ≤ lba ∧ 1 ≤ count
  · rw [msWriteBlocks_refused count buf hrefused]
    constructor
    · rintro -
      rcases hrefused with habsent | ⟨hlba, -⟩
      · exact Or.inl habsent
      · exact Or.inr (Or.inl hlba)
    · rintro - s' hrun
      cases hrun
  rw [not_or, Bool.not_eq_false] at hrefused
  obtain ⟨hpresent, hbounds⟩ := hrefused
  rcases Nat.eq_zero_or_pos count with rfl | hcount
  · constructor
    · rintro -
      exact Or.inr (Or.inr (Or.inr fun i _ hi => absurd hi (by omega)))
    · rintro - s' - i hi
      exact absurd hi (by omega)
  have hlba : lba < 4294967296 := by omega
  by_cases hcbw : IsCbw buf (u32 (count * 512))
  · obtain ⟨s₁, hrun⟩ := msWriteBlocks_command h hpresent hcount hlba hcbw
    rw [hrun]
    constructor
    · rintro -
      exact Or.inr (Or.inr (Or.inl hcbw))
    · rintro - s' hzero
      cases hzero
  obtain ⟨s₁, hrun, -, -, hsectors⟩ :=
    msWriteBlocks_eq h hpresent hcount hlba hcbw
  rw [hrun]
  constructor
  · intro hmoves
    refine Or.inr (Or.inr (Or.inr fun i hlow hi => ?_))
    have hblock := hmoves _ rfl i hi
    rwa [hsectors, storeBlocks, if_neg (by omega)] at hblock
  · rintro (habsent | hhigh | hcbw' | htail) s' hrun' i hi
    · rw [hpresent] at habsent
      cases habsent
    · omega
    · exact absurd hcbw' hcbw
    · cases hrun'
      rw [hsectors, storeBlocks]
      split
      · rw [Nat.add_sub_cancel_left]
      · exact htail i (by omega) hi

/--
Every block is moved exactly where the call is refused, or where the blocks
beyond the 16-bit count of the command are the same on both sides already.
-/
theorem movesEveryBlock_iff (h : s.Backed) (buf out : Buf) :
    MovesEveryBlock s lba count buf out ↔
      (s.ms.present = false ∨ 2147483648 ≤ lba ∨
        ∀ k, 512 * (count % 65536) ≤ k → k < 512 * count →
          out k = (s.system.device.sectors (lba + k / 512)).toBuf (k % 512)) ∧
      (s.ms.present = false ∨ 4294967296 ≤ lba ∨
        IsCbw buf (u32 (count * 512)) ∨
        ∀ i, count % 65536 ≤ i → i < count →
          s.system.device.sectors (lba + i) = blockOf buf i) :=
  and_congr (msReadBlocks_moves_iff h out) (msWriteBlocks_moves_iff h buf)

end AnySize

theorem three_blocks_moved :
    MovesEveryBlock Host.startup 2048 3 (fun _ => 7) fun _ => 0 :=
  (movesEveryBlock_iff Host.startup_ready.backed _ _).mpr
    ⟨Or.inr (Or.inr fun k hlow hk => absurd hk (by omega)),
      Or.inr (Or.inr (Or.inr fun i hlow hi => absurd hi (by omega)))⟩

/-- A write of 65536 blocks returns 0 and stores none. -/
theorem many_blocks_not_moved :
    (∃ s', msWriteBlocks 0 65536 (fun _ => 7) Host.startup = some (0, s') ∧
      s'.system.device.sectors 0 = Sector.zero) ∧
    ¬ MovesEveryBlock Host.startup 0 65536 (fun _ => 7) fun _ => 0 := by
  obtain ⟨s', hrun, -, -, hsectors⟩ := msWriteBlocks_eq Host.startup_ready.backed
    rfl (show 1 ≤ 65536 by decide) (show 0 < 4294967296 by decide)
    (show ¬ IsCbw (fun _ => 7) (u32 (65536 * 512)) from
      fun hcbw => absurd hcbw.2 (by decide))
  have hkept : s'.system.device.sectors 0 = Sector.zero := by
    rw [hsectors, storeBlocks, if_neg (by omega)]
    rfl
  refine ⟨⟨s', hrun, hkept⟩, ?_⟩
  rintro ⟨-, hwrites⟩
  have hblock := hwrites s' hrun 0 (by decide)
  rw [Nat.zero_add, hkept] at hblock
  have hbyte := congrArg (fun sector : Sector => sector.toBuf 0) hblock
  exact absurd hbyte (by decide)

end EntropyOS.Usb
