import EntropyOS.Exfat.Io

/-!
# Sequential exFAT input and output

`exfat_seek`, `exfat_read` and `exfat_write` of `io.c` as the UEFI build
compiles them.  They share the position in the handle.  `File` is what they are
for: a run of bytes with a pointer that every transfer advances.
-/

namespace EntropyOS.Exfat

open EntropyOS.Foundation

/-- `struct exfat_dev`, with the backend that it has in this build. -/
structure Handle where
  backend : Backend
  pos : Int64
  size : Int64

def onBackend {α : Type} (program : Program Backend α) : Program Handle α :=
  program.onPart Handle.backend fun s backend => { s with backend := backend }

/-- The last argument of `exfat_seek`. -/
inductive Whence where
  | seekSet
  | seekCur
  | seekEnd
  | other

def seek (offset : Int64) (whence : Whence) : Program Handle Int64 := do
  match whence with
  | .seekSet => modify fun s => { s with pos := offset }
  | .seekCur => modify fun s => { s with pos := s.pos + offset }
  | .seekEnd => modify fun s => { s with pos := s.size + offset }
  | .other => return -1
  return (← get).pos

def read (buffer : Buf) (size : UInt64) : Program Handle (Int64 × Buf) := do
  onBackend (pread buffer size (← get).pos)

def write (buffer : Buf) (size : UInt64) : Program Handle Int64 := do
  let r ← onBackend (pwrite buffer size (← get).pos)
  if r > 0 then
    modify fun s => { s with pos := s.pos + r }
  return r

inductive FileCall where
  | seekSet (offset : Int64)
  | seekCur (offset : Int64)
  | read (buffer : Buf) (size : UInt64)
  | write (buffer : Buf) (size : UInt64)

/-- A call, with the result and the buffer of a transfer. -/
def FileCall.run : FileCall → Program Handle (Option (Int64 × Buf))
  | .seekSet offset => do
      let _pos ← seek offset .seekSet
      return none
  | .seekCur offset => do
      let _pos ← seek offset .seekCur
      return none
  | .read buffer size => do
      let outcome ← Exfat.read buffer size
      return some outcome
  | .write buffer size => do
      let r ← Exfat.write buffer size
      return some (r, buffer)

def runCalls : List FileCall → Program Handle (List (Option (Int64 × Buf)))
  | [] => return []
  | call :: calls => do
      let outcome ← call.run
      let outcomes ← runCalls calls
      return outcome :: outcomes

/-! ## A file with a pointer -/

/-- The bytes of a disk, with a pointer into the partition that starts at `base`. -/
structure File where
  content : Buf
  base : Nat
  pos : Int

namespace File

variable (f : File)

def start : Nat := f.base + f.pos.toNat

def step : FileCall → Option (Int64 × Buf) × File
  | .seekSet offset => (none, { f with pos := offset.toInt })
  | .seekCur offset => (none, { f with pos := f.pos + offset.toInt })
  | .read buffer size =>
      (some (size.toInt64, buffer.overlay 0 size.toNat fun k =>
        f.content (f.start + k)), { f with pos := f.pos + size.toNat })
  | .write buffer size =>
      (some (size.toInt64, buffer), { f with
        content := f.content.overlay f.start size.toNat buffer
        pos := f.pos + size.toNat })

def run (f : File) : List FileCall → List (Option (Int64 × Buf)) × File
  | [] => ([], f)
  | call :: calls =>
      let (outcome, next) := f.step call
      let (outcomes, last) := next.run calls
      (outcome :: outcomes, last)

/-- The pointer is an `off_t` that is not negative, on a disk of `2 ^ 64` bytes. -/
def InRange : Prop :=
  0 ≤ f.pos ∧ f.pos < 9223372036854775808 ∧
    f.base + f.pos ≤ 18446744073709551616

instance : Decidable f.InRange := inferInstanceAs (Decidable (_ ∧ _ ∧ _))

/-- The pointer is in range before and after each of the calls. -/
def StaysInRange (f : File) : List FileCall → Prop
  | [] => f.InRange
  | call :: calls => f.InRange ∧ (f.step call).2.StaysInRange calls

def decidableStaysInRange : (f : File) → (calls : List FileCall) →
    Decidable (f.StaysInRange calls)
  | f, [] => inferInstanceAs (Decidable f.InRange)
  | f, call :: calls =>
      have := decidableStaysInRange (f.step call).2 calls
      inferInstanceAs (Decidable (_ ∧ _))

instance (f : File) (calls : List FileCall) : Decidable (f.StaysInRange calls) :=
  decidableStaysInRange f calls

theorem StaysInRange.inRange {f : File} {calls : List FileCall}
    (h : f.StaysInRange calls) : f.InRange := by
  cases calls with
  | nil => exact h
  | cons call calls => exact h.1

end File

def Handle.file (s : Handle) : File where
  content := bytes s.backend.system.device
  base := s.backend.partitionOffset.toNat * 512
  pos := s.pos.toInt

namespace FileCall

def transferred : FileCall → Nat
  | .read _ size => size.toNat
  | .write _ size => size.toNat
  | _ => 0

/-- How far the position of the handle is behind the pointer after the call. -/
def behind (distance : Nat) : FileCall → Nat
  | .seekSet _ => 0
  | .seekCur _ => distance
  | .read _ size => distance + size.toNat
  | .write _ _ => distance

end FileCall

/--
Between a read of some bytes and the next transfer of some bytes there is a
SEEK_SET.  `distance` is the number of bytes read since the last one.
-/
def SeeksAfterReads (distance : Nat) : List FileCall → Prop
  | [] => True
  | call :: calls =>
      (0 < call.transferred → distance = 0) ∧
        SeeksAfterReads (call.behind distance) calls

def decidableSeeksAfterReads : (distance : Nat) → (calls : List FileCall) →
    Decidable (SeeksAfterReads distance calls)
  | _, [] => inferInstanceAs (Decidable True)
  | distance, call :: calls =>
      have := decidableSeeksAfterReads (call.behind distance) calls
      inferInstanceAs (Decidable (_ ∧ _))

instance (distance : Nat) (calls : List FileCall) :
    Decidable (SeeksAfterReads distance calls) :=
  decidableSeeksAfterReads distance calls

/-- Every transfer of some bytes is made where the pointer of the file is. -/
def AtPointer : List FileCall → Handle → File → Prop
  | [], _, _ => True
  | call :: calls, s, f =>
      (0 < call.transferred → s.pos.toInt = f.pos) ∧
        ∀ outcome s', call.run s = some (outcome, s') →
          AtPointer calls s' (f.step call).2

/-! ## The handle against the file -/

/-- The handle is `distance` bytes behind the pointer of the file. -/
structure Tracks (s : Handle) (f : File) (distance : Nat) : Prop where
  faultFree : s.backend.system.device.FaultFree
  base : s.backend.partitionOffset.toNat * 512 = f.base
  content : bytes s.backend.system.device = f.content
  pos : s.pos.toInt + distance = f.pos
  distance_lt : distance < 9223372036854775808

theorem Handle.tracks_file {s : Handle}
    (h : s.backend.system.device.FaultFree) : Tracks s s.file 0 :=
  ⟨h, rfl, rfl, Int.add_zero _, by decide⟩

theorem toInt_add_of_range {a b : Int64}
    (hlow : -9223372036854775808 ≤ a.toInt + b.toInt)
    (hhigh : a.toInt + b.toInt < 9223372036854775808) :
    (a + b).toInt = a.toInt + b.toInt := by
  rw [Int64.toInt_add]
  exact Int.bmod_eq_of_le hlow hhigh

theorem toInt_toInt64_of_lt {size : UInt64}
    (h : size.toNat < 9223372036854775808) :
    size.toInt64.toInt = size.toNat := by
  have hsame : size.toInt64 = Int64.ofNat size.toNat := by
    rw [← UInt64.toInt64_ofNat', UInt64.ofNat_toNat]
  rw [hsame]
  exact Int64.toInt_ofNat_of_lt h

theorem toInt64_of_toNat_zero {size : UInt64} (h : size.toNat = 0) :
    size.toInt64 = 0 := by
  have hzero : size = 0 := UInt64.toNat.inj h
  rw [hzero]
  rfl

section Empty

variable {s : Backend} (buffer : Buf) {size : UInt64} (hsize : size.toNat = 0)
  (offset : Int64)

include hsize

theorem pread_empty (h : s.system.device.FaultFree) :
    pread buffer size offset s = some ((0, buffer), s) := by
  have hpos := (offset.toUInt64 + s.partitionOffset * 512).toNat_lt
  have hloop := preadLoop_eq h buffer
    (offset.toUInt64 + s.partitionOffset * 512).toNat 0 0 (Nat.le_of_lt hpos)
  unfold pread
  rw [Program.get_bind,
    hsize, onSystem, Program.onPart_of_some hloop, Buf.overlay_zero]
  rfl

theorem pwrite_empty : pwrite buffer size offset s = some (0, s) := by
  have hloop : pwriteLoop buffer
      (offset.toUInt64 + s.partitionOffset * 512).toNat 0 s.system =
        some (0, s.system) := by
    rw [pwriteLoop]
    rfl
  unfold pwrite
  rw [Program.get_bind,
    hsize, onSystem, Program.bind_of_some (Program.onPart_of_some hloop),
    if_neg (by decide), toInt64_of_toNat_zero hsize]
  rfl

end Empty

section Steps

variable {s : Handle} {f : File} {distance : Nat}

theorem onBackend_of_some {α : Type} {program : Program Backend α} {a : α}
    {backend' : Backend} (h : program s.backend = some (a, backend')) :
    onBackend program s = some (a, { s with backend := backend' }) :=
  Program.onPart_of_some h

theorem read_of_pread {buffer : Buf} {size : UInt64} {outcome : Int64 × Buf}
    (h : pread buffer size s.pos s.backend = some (outcome, s.backend)) :
    read buffer size s = some (outcome, s) := by
  rw [read, Program.get_bind]
  exact onBackend_of_some h

/-- At the pointer, the position of the handle names the byte of the file. -/
theorem Tracks.start_eq (ht : Tracks s f 0) : s.backend.start s.pos = f.start := by
  have hpos : s.pos.toInt = f.pos := (Int.add_zero _).symm.trans ht.pos
  rw [Backend.start, File.start, ht.base, ← hpos, Int64.toNat_toInt]

theorem Tracks.pos_nonneg (ht : Tracks s f 0) (hf : f.InRange) : 0 ≤ s.pos := by
  have hpos : s.pos.toInt = f.pos := (Int.add_zero _).symm.trans ht.pos
  rw [Int64.le_iff_toInt_le, hpos]
  exact hf.1

theorem Tracks.start_add_le (hf : f.InRange) {size : Nat}
    (hnext : f.base + (f.pos + size) ≤ 18446744073709551616) :
    f.start + size ≤ 18446744073709551616 := by
  have hpos := hf.1
  unfold File.start
  omega

theorem read_step (ht : Tracks s f distance) (hf : f.InRange) (buffer : Buf)
    (size : UInt64) (hnext : (f.step (.read buffer size)).2.InRange)
    (hplace : 0 < size.toNat → distance = 0) :
    ∃ s', (FileCall.read buffer size).run s =
        some ((f.step (.read buffer size)).1, s') ∧
      Tracks s' (f.step (.read buffer size)).2 (distance + size.toNat) := by
  obtain ⟨-, hhigh, hend⟩ := hnext
  simp only [File.step] at hhigh hend
  rcases Nat.eq_zero_or_pos size.toNat with hempty | hpos
  · have hrun := read_of_pread (pread_empty buffer hempty s.pos ht.faultFree)
    refine ⟨s, ?_, ⟨ht.faultFree, ht.base, ht.content, ?_, ?_⟩⟩
    · rw [FileCall.run, Program.bind_of_some hrun]
      simp only [File.step, hempty, Buf.overlay_zero, toInt64_of_toNat_zero hempty]
      rfl
    · have hsame := ht.pos
      simp only [File.step, hempty]
      push_cast
      omega
    · rw [hempty]
      exact ht.distance_lt
  · obtain rfl := hplace hpos
    have hrun := read_of_pread (pread_eq ht.faultFree buffer (ht.pos_nonneg hf) (by
      rw [ht.start_eq]
      exact Tracks.start_add_le hf hend))
    refine ⟨s, ?_, ⟨ht.faultFree, ht.base, ht.content, ?_, ?_⟩⟩
    · rw [FileCall.run, Program.bind_of_some hrun, ht.start_eq, ht.content]
      rfl
    · have hsame := ht.pos
      simp only [File.step]
      push_cast at hsame ⊢
      omega
    · have hlow := hf.1
      omega

theorem write_step (ht : Tracks s f distance) (hf : f.InRange) (buffer : Buf)
    (size : UInt64) (hnext : (f.step (.write buffer size)).2.InRange)
    (hplace : 0 < size.toNat → distance = 0) :
    ∃ s', (FileCall.write buffer size).run s =
        some ((f.step (.write buffer size)).1, s') ∧
      Tracks s' (f.step (.write buffer size)).2 distance := by
  obtain ⟨-, hhigh, hend⟩ := hnext
  simp only [File.step] at hhigh hend
  rcases Nat.eq_zero_or_pos size.toNat with hempty | hpos
  · have hrun := onBackend_of_some
      (pwrite_empty (s := s.backend) buffer hempty s.pos)
    refine ⟨s, ?_, ⟨ht.faultFree, ht.base, ?_, ?_, ht.distance_lt⟩⟩
    · have hwrite : write buffer size s = some (0, s) := by
        rw [write, Program.get_bind, Program.bind_of_some hrun,
          if_neg (by decide)]
        rfl
      rw [FileCall.run, Program.bind_of_some hwrite]
      simp only [File.step, toInt64_of_toNat_zero hempty]
      rfl
    · simp only [File.step, hempty, Buf.overlay_zero]
      exact ht.content
    · have hsame := ht.pos
      simp only [File.step, hempty]
      push_cast
      omega
  · obtain rfl := hplace hpos
    obtain ⟨system', hwrite, hfree, hbytes⟩ := pwrite_eq ht.faultFree buffer
      (ht.pos_nonneg hf) (by
        rw [ht.start_eq]
        exact Tracks.start_add_le hf hend)
    have hrun := onBackend_of_some hwrite
    have hlow := hf.1
    have hsize : size.toInt64.toInt = size.toNat := toInt_toInt64_of_lt (by omega)
    have hpos' : size.toInt64 > 0 := by
      rw [gt_iff_lt, Int64.lt_iff_toInt_lt, hsize]
      exact Int.natCast_pos.mpr hpos
    have hsame := ht.pos
    refine ⟨⟨⟨system', s.backend.partitionOffset⟩, s.pos + size.toInt64, s.size⟩,
      ?_, ⟨hfree, ht.base, ?_, ?_, ht.distance_lt⟩⟩
    · have hwrite : write buffer size s = some (size.toInt64,
          ⟨⟨system', s.backend.partitionOffset⟩, s.pos + size.toInt64, s.size⟩) := by
        rw [write, Program.get_bind, Program.bind_of_some hrun,
          if_pos hpos']
        rfl
      rw [FileCall.run, Program.bind_of_some hwrite]
      rfl
    · rw [hbytes, ht.start_eq, ht.content]
      rfl
    · have hadd : (s.pos + size.toInt64).toInt = s.pos.toInt + size.toNat := by
        rw [toInt_add_of_range, hsize]
        · rw [hsize]
          omega
        · rw [hsize]
          omega
      simp only [File.step]
      omega

theorem step_tracks {call : FileCall} (ht : Tracks s f distance) (hf : f.InRange)
    (hnext : (f.step call).2.InRange)
    (hplace : 0 < call.transferred → distance = 0) :
    ∃ s', call.run s = some ((f.step call).1, s') ∧
      Tracks s' (f.step call).2 (call.behind distance) := by
  cases call with
  | seekSet offset =>
      exact ⟨{ s with pos := offset }, rfl,
        ⟨ht.faultFree, ht.base, ht.content, Int.add_zero _,
          show 0 < 9223372036854775808 by decide⟩⟩
  | seekCur offset =>
      have hsame := ht.pos
      have hbound := ht.distance_lt
      obtain ⟨hlow, hhigh, -⟩ := hnext
      simp only [File.step] at hlow hhigh
      refine ⟨{ s with pos := s.pos + offset }, rfl,
        ⟨ht.faultFree, ht.base, ht.content, ?_, hbound⟩⟩
      have hadd := toInt_add_of_range (a := s.pos) (b := offset) (by omega)
        (by omega)
      simp only [File.step, FileCall.behind, hadd]
      omega
  | read buffer size => exact read_step ht hf buffer size hnext hplace
  | write buffer size => exact write_step ht hf buffer size hnext hplace

end Steps

theorem runCalls_tracks {s : Handle} {f : File} {distance : Nat}
    {calls : List FileCall} (ht : Tracks s f distance) (hf : f.StaysInRange calls)
    (hseeks : SeeksAfterReads distance calls) :
    ∃ s' distance', runCalls calls s = some ((f.run calls).1, s') ∧
      Tracks s' (f.run calls).2 distance' := by
  induction calls generalizing s f distance with
  | nil => exact ⟨s, distance, rfl, ht⟩
  | cons call calls ih =>
      obtain ⟨hplace, hrest⟩ := hseeks
      obtain ⟨s₁, hcall, ht₁⟩ := step_tracks ht hf.1 hf.2.inRange hplace
      obtain ⟨s', distance', hcalls, ht'⟩ := ih ht₁ hf.2 hrest
      refine ⟨s', distance', ?_, ht'⟩
      rw [runCalls, Program.bind_of_some hcall, Program.bind_of_some hcalls]
      rfl

/-- The first transfer away from the pointer is one that no SEEK_SET precedes. -/
theorem atPointer_iff {s : Handle} {f : File} {distance : Nat}
    {calls : List FileCall} (ht : Tracks s f distance) (hf : f.StaysInRange calls) :
    AtPointer calls s f ↔ SeeksAfterReads distance calls := by
  induction calls generalizing s f distance with
  | nil => exact Iff.rfl
  | cons call calls ih =>
      have hpos := ht.pos
      have hplace : (0 < call.transferred → s.pos.toInt = f.pos) ↔
          (0 < call.transferred → distance = 0) :=
        imp_congr_right fun _ => by omega
      rw [AtPointer, SeeksAfterReads, hplace]
      refine and_congr_right fun hfirst => ?_
      obtain ⟨s₁, hcall, ht₁⟩ := step_tracks ht hf.1 hf.2.inRange hfirst
      rw [← ih ht₁ hf.2]
      constructor
      · exact fun hall => hall _ s₁ hcall
      · intro hone outcome s' hcall'
        rw [hcall] at hcall'
        cases hcall'
        exact hone

/--
Every transfer of the run starts where the pointer of the file is, and has the
outcome that it has on the file.
-/
def FollowsPointer (s : Handle) (calls : List FileCall) : Prop :=
  AtPointer calls s s.file ∧
  ∃ s', runCalls calls s = some ((s.file.run calls).1, s') ∧
    bytes s'.backend.system.device = (s.file.run calls).2.content

/--
The handle follows the pointer exactly where there is a SEEK_SET between a read
and the next transfer, since `exfat_read` leaves the position alone.
-/
theorem followsPointer_iff {s : Handle} (h : s.backend.system.device.FaultFree)
    {calls : List FileCall} (hrange : s.file.StaysInRange calls) :
    FollowsPointer s calls ↔ SeeksAfterReads 0 calls := by
  have ht := Handle.tracks_file h
  constructor
  · rintro ⟨hplace, -⟩
    exact (atPointer_iff ht hrange).mp hplace
  · intro hseeks
    obtain ⟨s', distance', hrun, ht'⟩ := runCalls_tracks ht hrange hseeks
    exact ⟨(atPointer_iff ht hrange).mpr hseeks, s', hrun, ht'.content⟩

/-- A handle as `exfat_open` makes it, over a partition at sector 2048. -/
def Handle.opened (sectors : Nat → Sector) : Handle where
  backend := ⟨System.startup sectors, 2048⟩
  pos := 0
  size := 2199023255552

/-- Two writes in a row, and a read of both after a seek. -/
theorem writes_read_back :
    FollowsPointer (Handle.opened fun _ => Sector.zero)
      [.seekSet 100, .write (fun _ => 7) 600, .write (fun _ => 8) 600,
        .seekSet 100, .read (fun _ => 0) 1200] :=
  (followsPointer_iff (System.startup_faultFree _) (by decide)).mpr (by decide)

/-- The second of two reads returns the byte that the first one did. -/
theorem second_read_repeats :
    ¬ FollowsPointer (Handle.opened fun _ k => UInt8.ofNat k)
      [.read (fun _ => 0) 1, .read (fun _ => 0) 1] := by
  let s := Handle.opened fun _ k => UInt8.ofNat k
  let buffer : Buf := Buf.overlay (fun _ => 0) 0 1 fun k =>
    bytes s.backend.system.device (s.backend.start 0 + k)
  have hpread : pread (fun _ => 0) 1 s.pos s.backend =
      some ((1, buffer), s.backend) :=
    @pread_eq s.backend 1 0 (System.startup_faultFree _) _ (by decide) (by decide)
  have hread : (FileCall.read (fun _ => 0) 1).run s = some (some (1, buffer), s) := by
    rw [FileCall.run, Program.bind_of_some (read_of_pread hpread)]
    rfl
  have hruns : runCalls [.read (fun _ => 0) 1, .read (fun _ => 0) 1] s =
      some ([some (1, buffer), some (1, buffer)], s) := by
    rw [runCalls, Program.bind_of_some hread, runCalls, runCalls]
    rw [Program.bind_of_some (a := [some (1, buffer)])
      (by rw [Program.bind_of_some hread]; rfl)]
    rfl
  rintro ⟨-, s', hrun, -⟩
  rw [hruns] at hrun
  have houtcomes := congrArg Prod.fst (Option.some.inj hrun)
  simp only [File.run, File.step, List.cons.injEq, Option.some.injEq,
    Prod.mk.injEq, and_true] at houtcomes
  -- the byte at the pointer is 1, and the byte returned is 0
  have hbyte := congrFun houtcomes.2.2 0
  exact absurd hbyte (by decide)

end EntropyOS.Exfat
