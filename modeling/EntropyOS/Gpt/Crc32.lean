import EntropyOS.Foundation.Bytes
import EntropyOS.Foundation.Crc

/-!
# The table-driven checksum of the GPT module

`crc32` reads `length` bytes one table step at a time, as `gpt.c` does.
-/

namespace EntropyOS.Gpt

open EntropyOS.Foundation

def crc32Table : Array UInt32 :=
  #[
    0x00000000, 0x77073096, 0xEE0E612C, 0x990951BA, 0x076DC419, 0x706AF48F,
    0xE963A535, 0x9E6495A3, 0x0EDB8832, 0x79DCB8A4, 0xE0D5E91E, 0x97D2D988,
    0x09B64C2B, 0x7EB17CBD, 0xE7B82D07, 0x90BF1D91, 0x1DB71064, 0x6AB020F2,
    0xF3B97148, 0x84BE41DE, 0x1ADAD47D, 0x6DDDE4EB, 0xF4D4B551, 0x83D385C7,
    0x136C9856, 0x646BA8C0, 0xFD62F97A, 0x8A65C9EC, 0x14015C4F, 0x63066CD9,
    0xFA0F3D63, 0x8D080DF5, 0x3B6E20C8, 0x4C69105E, 0xD56041E4, 0xA2677172,
    0x3C03E4D1, 0x4B04D447, 0xD20D85FD, 0xA50AB56B, 0x35B5A8FA, 0x42B2986C,
    0xDBBBC9D6, 0xACBCF940, 0x32D86CE3, 0x45DF5C75, 0xDCD60DCF, 0xABD13D59,
    0x26D930AC, 0x51DE003A, 0xC8D75180, 0xBFD06116, 0x21B4F4B5, 0x56B3C423,
    0xCFBA9599, 0xB8BDA50F, 0x2802B89E, 0x5F058808, 0xC60CD9B2, 0xB10BE924,
    0x2F6F7C87, 0x58684C11, 0xC1611DAB, 0xB6662D3D, 0x76DC4190, 0x01DB7106,
    0x98D220BC, 0xEFD5102A, 0x71B18589, 0x06B6B51F, 0x9FBFE4A5, 0xE8B8D433,
    0x7807C9A2, 0x0F00F934, 0x9609A88E, 0xE10E9818, 0x7F6A0DBB, 0x086D3D2D,
    0x91646C97, 0xE6635C01, 0x6B6B51F4, 0x1C6C6162, 0x856530D8, 0xF262004E,
    0x6C0695ED, 0x1B01A57B, 0x8208F4C1, 0xF50FC457, 0x65B0D9C6, 0x12B7E950,
    0x8BBEB8EA, 0xFCB9887C, 0x62DD1DDF, 0x15DA2D49, 0x8CD37CF3, 0xFBD44C65,
    0x4DB26158, 0x3AB551CE, 0xA3BC0074, 0xD4BB30E2, 0x4ADFA541, 0x3DD895D7,
    0xA4D1C46D, 0xD3D6F4FB, 0x4369E96A, 0x346ED9FC, 0xAD678846, 0xDA60B8D0,
    0x44042D73, 0x33031DE5, 0xAA0A4C5F, 0xDD0D7CC9, 0x5005713C, 0x270241AA,
    0xBE0B1010, 0xC90C2086, 0x5768B525, 0x206F85B3, 0xB966D409, 0xCE61E49F,
    0x5EDEF90E, 0x29D9C998, 0xB0D09822, 0xC7D7A8B4, 0x59B33D17, 0x2EB40D81,
    0xB7BD5C3B, 0xC0BA6CAD, 0xEDB88320, 0x9ABFB3B6, 0x03B6E20C, 0x74B1D29A,
    0xEAD54739, 0x9DD277AF, 0x04DB2615, 0x73DC1683, 0xE3630B12, 0x94643B84,
    0x0D6D6A3E, 0x7A6A5AA8, 0xE40ECF0B, 0x9309FF9D, 0x0A00AE27, 0x7D079EB1,
    0xF00F9344, 0x8708A3D2, 0x1E01F268, 0x6906C2FE, 0xF762575D, 0x806567CB,
    0x196C3671, 0x6E6B06E7, 0xFED41B76, 0x89D32BE0, 0x10DA7A5A, 0x67DD4ACC,
    0xF9B9DF6F, 0x8EBEEFF9, 0x17B7BE43, 0x60B08ED5, 0xD6D6A3E8, 0xA1D1937E,
    0x38D8C2C4, 0x4FDFF252, 0xD1BB67F1, 0xA6BC5767, 0x3FB506DD, 0x48B2364B,
    0xD80D2BDA, 0xAF0A1B4C, 0x36034AF6, 0x41047A60, 0xDF60EFC3, 0xA867DF55,
    0x316E8EEF, 0x4669BE79, 0xCB61B38C, 0xBC66831A, 0x256FD2A0, 0x5268E236,
    0xCC0C7795, 0xBB0B4703, 0x220216B9, 0x5505262F, 0xC5BA3BBE, 0xB2BD0B28,
    0x2BB45A92, 0x5CB36A04, 0xC2D7FFA7, 0xB5D0CF31, 0x2CD99E8B, 0x5BDEAE1D,
    0x9B64C2B0, 0xEC63F226, 0x756AA39C, 0x026D930A, 0x9C0906A9, 0xEB0E363F,
    0x72076785, 0x05005713, 0x95BF4A82, 0xE2B87A14, 0x7BB12BAE, 0x0CB61B38,
    0x92D28E9B, 0xE5D5BE0D, 0x7CDCEFB7, 0x0BDBDF21, 0x86D3D2D4, 0xF1D4E242,
    0x68DDB3F8, 0x1FDA836E, 0x81BE16CD, 0xF6B9265B, 0x6FB077E1, 0x18B74777,
    0x88085AE6, 0xFF0F6A70, 0x66063BCA, 0x11010B5C, 0x8F659EFF, 0xF862AE69,
    0x616BFFD3, 0x166CCF45, 0xA00AE278, 0xD70DD2EE, 0x4E048354, 0x3903B3C2,
    0xA7672661, 0xD06016F7, 0x4969474D, 0x3E6E77DB, 0xAED16A4A, 0xD9D65ADC,
    0x40DF0B66, 0x37D83BF0, 0xA9BCAE53, 0xDEBB9EC5, 0x47B2CF7F, 0x30B5FFE9,
    0xBDBDF21C, 0xCABAC28A, 0x53B39330, 0x24B4A3A6, 0xBAD03605, 0xCDD70693,
    0x54DE5729, 0x23D967BF, 0xB3667A2E, 0xC4614AB8, 0x5D681B02, 0x2A6F2B94,
    0xB40BBE37, 0xC30C8EA1, 0x5A05DF1B, 0x2D02EF8D
  ]

def crc32Step (crc : UInt32) (byte : UInt8) : UInt32 :=
  crc32Table.getD ((crc ^^^ byte.toUInt32) &&& 0xFF).toNat 0 ^^^ (crc >>> 8)

def crc32From (data : Buf) : (start count : Nat) → UInt32 → UInt32
  | _, 0, crc => crc
  | start, count + 1, crc =>
      crc32From data (start + 1) count (crc32Step crc (data start))

def crc32 (data : Buf) (length : Nat) : UInt32 :=
  crc32From data 0 length 0xFFFFFFFF ^^^ 0xFFFFFFFF

theorem crc32From_congr {data data' : Buf} {start count : Nat}
    (crc : UInt32)
    (h : ∀ i, start ≤ i → i < start + count → data i = data' i) :
    crc32From data start count crc = crc32From data' start count crc := by
  induction count generalizing start crc with
  | zero => rfl
  | succ count ih =>
      rw [crc32From, crc32From, h start (by omega) (by omega)]
      exact ih _ fun i hlow hhigh => h i (by omega) (by omega)

theorem crc32_congr {data data' : Buf} {length : Nat}
    (h : ∀ i < length, data i = data' i) :
    crc32 data length = crc32 data' length := by
  unfold crc32
  rw [crc32From_congr _ fun i _ hi => h i (by omega)]

theorem crc32From_append (data : Buf) (start count more : Nat) (crc : UInt32) :
    crc32From data start (count + more) crc =
      crc32From data (start + count) more (crc32From data start count crc) := by
  induction count generalizing start crc with
  | zero => simp [crc32From]
  | succ count ih =>
      rw [show count + 1 + more = count + more + 1 by omega, crc32From, ih,
        crc32From, show start + 1 + count = start + (count + 1) by omega]

/-! ## The check value bit by bit -/

def crc32Rows (index : BitVec 8) : BitVec 32 := (crc32Table.getD index.toNat 0).toBitVec

private theorem crc32Rows_toFin :
    ∀ index : Fin 256, crc32Rows ⟨index⟩ =
      Crc.bitSteps 0xEDB88320#32 8 (BitVec.setWidth 32 (⟨index⟩ : BitVec 8)) := by
  decide +kernel

theorem crc32Rows_isTable : Crc.IsTable 0xEDB88320#32 crc32Rows :=
  fun index => crc32Rows_toFin index.toFin

theorem crc32Step_toBitVec (crc : UInt32) (byte : UInt8) :
    (crc32Step crc byte).toBitVec = Crc.tableStep crc32Rows crc.toBitVec byte.toBitVec := by
  have hindex : ((crc ^^^ byte.toUInt32) &&& 0xFF).toNat =
      ((crc.toBitVec ^^^ byte.toBitVec.setWidth 32).setWidth 8).toNat := by
    rw [UInt32.toNat_and, BitVec.toNat_setWidth]
    exact Nat.and_two_pow_sub_one_eq_mod _ 8
  rw [crc32Step, Crc.tableStep, crc32Rows, ← hindex, UInt32.toBitVec_xor]
  rfl

theorem crc32From_toBitVec (data : Buf) (start count : Nat) (crc : UInt32) :
    (crc32From data start count crc).toBitVec =
      ((List.range' start count).map fun i => (data i).toBitVec).foldl
        (Crc.tableStep crc32Rows) crc.toBitVec := by
  induction count generalizing start crc with
  | zero => rfl
  | succ count ih =>
      rw [crc32From, ih, crc32Step_toBitVec]
      rfl

/-- `crc32` is CRC-32. -/
theorem crc32_bitwise (data : Buf) (length : Nat) :
    (crc32 data length).toBitVec = Crc.check 0xEDB88320#32 0xFFFFFFFF#32
      ((List.range length).map fun i => (data i).toBitVec) := by
  rw [crc32, UInt32.toBitVec_xor, crc32From_toBitVec,
    Crc.foldl_tableStep crc32Rows_isTable, Crc.check, List.range_eq_range']
  exact BitVec.xor_allOnes

example : Crc.check 0xEDB88320#32 0xFFFFFFFF#32
    [0x31, 0x32, 0x33, 0x34, 0x35, 0x36, 0x37, 0x38, 0x39] = 0xCBF43926#32 := by
  decide +kernel

/-! ## Different states never meet again -/

theorem crc32Step_injective (byte : UInt8) :
    Function.Injective fun crc => crc32Step crc byte := by
  intro crc crc' h
  have hbits := congrArg UInt32.toBitVec h
  simp only [crc32Step_toBitVec, Crc.tableStep_eq crc32Rows_isTable] at hbits
  exact UInt32.toBitVec_inj.mp (Crc.byteStep_injective rfl _ hbits)

theorem crc32From_injective (data : Buf) (start count : Nat) :
    Function.Injective (crc32From data start count) := by
  induction count generalizing start with
  | zero => exact fun _ _ h => h
  | succ count ih =>
      intro crc crc' h
      exact crc32Step_injective _ (ih (start + 1) h)

/-- Up to four bytes are told apart by the state they lead to. -/
theorem crc32From_inj_of_short {data data' : Buf} {start count : Nat} {crc : UInt32}
    (hshort : count ≤ 4)
    (h : crc32From data start count crc = crc32From data' start count crc) :
    ∀ i, start ≤ i → i < start + count → data i = data' i := by
  have hbits := congrArg UInt32.toBitVec h
  rw [crc32From_toBitVec, crc32From_toBitVec, Crc.foldl_tableStep crc32Rows_isTable,
    Crc.foldl_tableStep crc32Rows_isTable] at hbits
  have hbytes := Crc.foldl_byteStep_injective rfl (by simp) (by simpa using by omega)
    hbits
  intro i hlow hhigh
  have hi := List.map_inj_left.mp hbytes i (List.mem_range'_1.mpr ⟨hlow, hhigh⟩)
  exact UInt8.toBitVec_inj.mp hi

/-- Where the same bytes follow, a difference in the checksum remains. -/
theorem crc32_ne_of_split {data data' : Buf} {count : Nat} (more : Nat)
    (h : crc32From data 0 count 0xFFFFFFFF ≠ crc32From data' 0 count 0xFFFFFFFF)
    (hsame : ∀ i, count ≤ i → i < count + more → data i = data' i) :
    crc32 data (count + more) ≠ crc32 data' (count + more) := by
  intro heq
  apply h
  apply crc32From_injective data' count more
  have hfrom : crc32From data 0 (count + more) 0xFFFFFFFF =
      crc32From data' 0 (count + more) 0xFFFFFFFF :=
    (UInt32.xor_left_inj _).mp heq
  rw [crc32From_append, crc32From_append, Nat.zero_add,
    crc32From_congr _ hsame] at hfrom
  exact hfrom

/-! ## Checksums of zero bytes -/

/-- The rows of a table as the digits of one number, to look them up fast. -/
private def packRows (rows : List UInt32) : Nat :=
  rows.foldr (fun row rest => row.toNat + 2 ^ 32 * rest) 0

private theorem packRows_row (rows : List UInt32) (i : Nat) :
    packRows rows >>> (32 * i) % 2 ^ 32 = (rows.getD i 0).toNat := by
  induction rows generalizing i with
  | nil => simp [packRows]
  | cons row rows ih =>
      have hrow := row.toNat_lt
      cases i with
      | zero =>
          rw [List.getD_cons_zero, Nat.mul_zero, Nat.shiftRight_zero, packRows,
            List.foldr_cons]
          omega
      | succ i =>
          have hshift : packRows (row :: rows) >>> 32 = packRows rows := by
            rw [Nat.shiftRight_eq_div_pow, packRows, List.foldr_cons, packRows]
            omega
          rw [List.getD_cons_succ, ← ih i, Nat.mul_succ, Nat.add_comm (32 * i),
            Nat.shiftRight_add, hshift]

private def zeroStep (crc : Nat) : Nat :=
  (packRows crc32Table.toList >>> (32 * (crc % 256)) % 2 ^ 32) ^^^ (crc / 256)

private def zeroSteps : (count crc : Nat) → Nat
  | 0, crc => crc
  | count + 1, crc => zeroSteps count (zeroStep crc)

private theorem crc32Step_zero_toNat (crc : UInt32) :
    (crc32Step crc 0).toNat = zeroStep crc.toNat := by
  have hindex : ((crc ^^^ (0 : UInt8).toUInt32) &&& 0xFF).toNat =
      crc.toNat % 256 := by
    rw [UInt32.toNat_and, UInt32.toNat_xor]
    change (crc.toNat ^^^ 0) &&& (2 ^ 8 - 1) = _
    rw [Nat.xor_zero, Nat.and_two_pow_sub_one_eq_mod]
  have hshift : (crc >>> 8).toNat = crc.toNat / 256 := by
    rw [UInt32.toNat_shiftRight]
    exact Nat.shiftRight_eq_div_pow _ 8
  rw [crc32Step, UInt32.toNat_xor, hindex, hshift, zeroStep, packRows_row,
    Array.getD_eq_getD_getElem?, List.getD_eq_getElem?_getD,
    Array.getElem?_toList]

private theorem crc32From_zeros_toNat (start count : Nat) (crc : UInt32) :
    (crc32From (fun _ => 0) start count crc).toNat =
      zeroSteps count crc.toNat := by
  induction count generalizing start crc with
  | zero => rfl
  | succ count ih => rw [crc32From, ih, crc32Step_zero_toNat, zeroSteps]

private theorem zeroSteps_add (count more crc : Nat) :
    zeroSteps (count + more) crc = zeroSteps more (zeroSteps count crc) := by
  induction count generalizing crc with
  | zero => simp [zeroSteps]
  | succ count ih => rw [Nat.succ_add, zeroSteps, ih, zeroSteps]

/-- None of the next `blocks` blocks of 128 zero bytes leads to `state`. -/
private def avoids (state : Nat) : (blocks crc : Nat) → Bool
  | 0, _ => true
  | blocks + 1, crc =>
      zeroSteps 128 crc != state && avoids state blocks (zeroSteps 128 crc)

private theorem ne_of_avoids {state blocks crc m : Nat}
    (h : avoids state blocks crc = true) (hlow : 0 < m) (hm : m ≤ blocks) :
    zeroSteps (m * 128) crc ≠ state := by
  induction blocks generalizing crc m with
  | zero => omega
  | succ blocks ih =>
      rw [avoids, Bool.and_eq_true, bne_iff_ne] at h
      obtain ⟨m, rfl⟩ : ∃ n, m = n + 1 := ⟨m - 1, by omega⟩
      rw [Nat.succ_mul, Nat.add_comm, zeroSteps_add]
      cases m with
      | zero => simpa [zeroSteps] using h.1
      | succ m => exact ih h.2 (by omega) (by omega)

private theorem avoids_start : avoids 0xFFFFFFFF 128 0xFFFFFFFF = true := by
  decide +kernel

theorem crc32_zeros_ne {count : Nat} (hcount : count < 128) :
    crc32 (fun _ => 0) (count * 128) ≠ crc32 (fun _ => 0) (128 * 128) := by
  intro heq
  have hfrom : crc32From (fun _ => 0) 0 (count * 128) 0xFFFFFFFF =
      crc32From (fun _ => 0) 0 (128 * 128) 0xFFFFFFFF :=
    (UInt32.xor_left_inj _).mp heq
  have hshift : ∀ start crc, crc32From (fun _ => 0) start (count * 128) crc =
      crc32From (fun _ => 0) 0 (count * 128) crc := by
    intro start crc
    apply UInt32.toNat.inj
    rw [crc32From_zeros_toNat, crc32From_zeros_toNat]
  rw [show 128 * 128 = (128 - count) * 128 + count * 128 by omega,
    crc32From_append, hshift (0 + _)] at hfrom
  have hback := crc32From_injective _ _ _ hfrom
  have hsteps := congrArg UInt32.toNat hback
  rw [crc32From_zeros_toNat] at hsteps
  exact ne_of_avoids avoids_start (by omega) (by omega) hsteps.symm

end EntropyOS.Gpt
