import Mathlib.Tactic
import Mathlib.Order.CompletePartialOrder

/-!
# The bump allocator of the exFAT port

`malloc`, `calloc` and `exfat_heap_reset` of `compat.c`.  Addresses count from
the start of `exfat_heap`, and sizes are 64-bit words, so the rounding, the
bound check and the product of `calloc` all wrap.
-/

namespace EntropyOS.Exfat

def heapSize : UInt64 := 2097152

/-- `memory` holds the bytes from the start of the heap on. -/
structure Heap where
  used : UInt64
  memory : Nat → UInt8
  exfatErrors : Int
  console : List String

/-- `exfat_error`, which prints its format as it stands. -/
def exfatError (format : String) : StateM Heap Unit :=
  modify fun heap => { heap with
    exfatErrors := heap.exfatErrors + 1
    console := ".\n" :: format :: "ERROR: " :: heap.console }

def roundUp (size : UInt64) : UInt64 := (size + 7) &&& ~~~7

/-- `malloc`; `none` is a null pointer. -/
def malloc (size : UInt64) : StateM Heap (Option UInt64) := do
  let size := roundUp size
  let heap ← get
  if heap.used + size > heapSize then
    exfatError "malloc failed: requested %lu/%lu bytes"
    return none
  let p := heap.used
  modify fun heap => { heap with used := heap.used + size }
  return some p

def clear (p total : UInt64) : StateM Heap Unit :=
  modify fun heap => { heap with
    memory := fun k =>
      if p.toNat ≤ k ∧ k < p.toNat + total.toNat then 0 else heap.memory k }

def calloc (nmemb size : UInt64) : StateM Heap (Option UInt64) := do
  let total := nmemb * size
  match ← malloc total with
  | none => return none
  | some p =>
      clear p total
      return some p

def Heap.reset (heap : Heap) : Heap := { heap with used := 0 }

inductive Call where
  | malloc (size : UInt64)
  | calloc (nmemb size : UInt64)

namespace Call

def run : Call → StateM Heap (Option UInt64)
  | malloc size => Exfat.malloc size
  | calloc nmemb size => Exfat.calloc nmemb size

/-- The number of bytes that the caller asks for. -/
def requested : Call → Nat
  | malloc size => size.toNat
  | calloc nmemb size => nmemb.toNat * size.toNat

end Call

structure Block where
  start : Nat
  bytes : Nat

namespace Block

def addresses (block : Block) : Set Nat :=
  Set.Ico block.start (block.start + block.bytes)

def ofResult (call : Call) (result : Option UInt64) : List Block :=
  result.toList.map fun p => ⟨p.toNat, call.requested⟩

end Block

def Heap.blocks : Heap → List Call → List Block
  | _, [] => []
  | heap, call :: calls =>
      Block.ofResult call (call.run heap).1 ++ blocks (call.run heap).2 calls

/-- `exfat_heap_used` before the calls and after each. -/
def Heap.usage : Heap → List Call → List UInt64
  | heap, [] => [heap.used]
  | heap, call :: calls => heap.used :: usage (call.run heap).2 calls

structure SoundAllocation (heap : Heap) (calls : List Call) : Prop where
  inside : ∀ block ∈ heap.blocks calls,
    block.start + block.bytes ≤ heapSize.toNat
  disjoint : (heap.blocks calls).Pairwise fun a b =>
    Disjoint a.addresses b.addresses
  bounded : ∀ used ∈ heap.usage calls, used ≤ heapSize
  rising : (heap.usage calls).Pairwise (· ≤ ·)

/--
No sum of the call wraps, and a product that does not fit in 64 bits leaves a
size that is refused.
-/
def Call.Fits (used : UInt64) (call : Call) : Prop :=
  used.toNat + call.requested % 2 ^ 64 + 7 < 2 ^ 64 ∧
    (call.requested < 2 ^ 64 ∨
      heapSize.toNat < used.toNat + call.requested % 2 ^ 64)

instance (used : UInt64) (call : Call) : Decidable (call.Fits used) :=
  inferInstanceAs (Decidable (_ ∧ _))

/-- Each call fits the number of bytes in use when it is made. -/
def Heap.EachFits : Heap → List Call → Prop
  | _, [] => True
  | heap, call :: calls =>
      call.Fits heap.used ∧ EachFits (call.run heap).2 calls

/-! ## One call -/

theorem roundUp_toNat (size : UInt64) :
    (roundUp size).toNat = (size.toNat + 7) % 2 ^ 64 / 8 * 8 := by
  have hshift : (size + 7).toBitVec &&& ~~~7#64 =
      ((size + 7).toBitVec >>> 3) <<< 3 := by
    ext i hi
    interval_cases i <;> simp
  have hvalue := congrArg BitVec.toNat hshift
  simp only [BitVec.toNat_shiftLeft, BitVec.toNat_ushiftRight,
    Nat.shiftRight_eq_div_pow, Nat.shiftLeft_eq] at hvalue
  have hsum : (size + 7).toBitVec.toNat = (size.toNat + 7) % 2 ^ 64 := by
    simp
  rw [hsum] at hvalue
  change ((size + 7).toBitVec &&& ~~~7#64).toNat = _
  rw [hvalue]
  omega

/-- The size in the 64-bit word that reaches `malloc`. -/
def Call.total : Call → UInt64
  | malloc size => size
  | calloc nmemb size => nmemb * size

theorem Call.total_toNat (call : Call) :
    call.total.toNat = call.requested % 2 ^ 64 := by
  cases call with
  | malloc size => exact (Nat.mod_eq_of_lt size.toNat_lt).symm
  | calloc nmemb size => exact UInt64.toNat_mul nmemb size

section Malloc

variable {size : UInt64} {heap : Heap}

theorem malloc_refused (h : heap.used + roundUp size > heapSize) :
    malloc size heap =
      (none, (exfatError "malloc failed: requested %lu/%lu bytes" heap).2) := by
  unfold malloc
  simp only [bind, StateT.bind, get, getThe, MonadStateOf.get, StateT.get,
    pure, if_pos h]
  rfl

theorem malloc_granted (h : ¬ heap.used + roundUp size > heapSize) :
    malloc size heap =
      (some heap.used, { heap with used := heap.used + roundUp size }) := by
  unfold malloc
  simp only [bind, StateT.bind, get, getThe, MonadStateOf.get, StateT.get,
    pure, if_neg h]
  rfl

end Malloc

theorem Call.run_refused {call : Call} {heap : Heap}
    (h : heap.used + roundUp call.total > heapSize) :
    (call.run heap).1 = none ∧ (call.run heap).2.used = heap.used := by
  cases call with
  | malloc size =>
      have hmalloc := malloc_refused (show heap.used + roundUp size > heapSize from h)
      simp only [run, hmalloc]
      exact ⟨trivial, rfl⟩
  | calloc nmemb size =>
      have hmalloc := malloc_refused
        (show heap.used + roundUp (nmemb * size) > heapSize from h)
      simp only [run, Exfat.calloc, bind, StateT.bind, hmalloc]
      exact ⟨rfl, rfl⟩

theorem Call.run_granted {call : Call} {heap : Heap}
    (h : ¬ heap.used + roundUp call.total > heapSize) :
    (call.run heap).1 = some heap.used ∧
      (call.run heap).2.used = heap.used + roundUp call.total := by
  cases call with
  | malloc size =>
      have hmalloc := malloc_granted
        (show ¬ heap.used + roundUp size > heapSize from h)
      simp only [run, hmalloc]
      exact ⟨trivial, rfl⟩
  | calloc nmemb size =>
      have hmalloc := malloc_granted
        (show ¬ heap.used + roundUp (nmemb * size) > heapSize from h)
      simp only [run, Exfat.calloc, bind, StateT.bind, hmalloc]
      exact ⟨rfl, rfl⟩

/-- Between two calls the mark lies in the heap, at a multiple of eight. -/
structure Heap.Ok (heap : Heap) : Prop where
  bounded : heap.used.toNat ≤ heapSize.toNat
  aligned : 8 ∣ heap.used.toNat

theorem Heap.reset_ok (heap : Heap) : heap.reset.Ok :=
  ⟨Nat.zero_le _, Nat.dvd_zero 8⟩

section Step

variable {call : Call} {heap : Heap} (h : heap.Ok)

include h

theorem Call.Fits.sum_toNat (hfits : call.Fits heap.used) :
    (heap.used + roundUp call.total).toNat =
      heap.used.toNat + (call.requested % 2 ^ 64 + 7) / 8 * 8 := by
  have haligned := h.aligned
  have hroom := hfits.1
  rw [UInt64.toNat_add, roundUp_toNat, call.total_toNat]
  omega

theorem Call.Fits.run (hfits : call.Fits heap.used) :
    (call.run heap).2.Ok ∧
      ((call.run heap).1 = none ∧ (call.run heap).2.used = heap.used ∨
        (call.run heap).1 = some heap.used ∧
          heap.used.toNat + call.requested ≤
            (call.run heap).2.used.toNat) := by
  have hsum := hfits.sum_toNat h
  have haligned := h.aligned
  obtain ⟨hroom, hproduct⟩ := hfits
  by_cases hover : heap.used + roundUp call.total > heapSize
  · obtain ⟨hresult, hused⟩ := run_refused hover
    exact ⟨⟨hused ▸ h.bounded, hused ▸ h.aligned⟩, Or.inl ⟨hresult, hused⟩⟩
  · obtain ⟨hresult, hused⟩ := run_granted hover
    rw [gt_iff_lt, UInt64.lt_iff_toNat_lt, hsum] at hover
    have hwhole : call.requested % 2 ^ 64 = call.requested := by
      refine Nat.mod_eq_of_lt (hproduct.resolve_right ?_)
      omega
    rw [hwhole] at hsum hover hroom
    rw [← hused] at hsum
    refine ⟨⟨?_, ?_⟩, Or.inr ⟨hresult, ?_⟩⟩ <;> omega

/-- A call that does not fit is granted more than the heap has. -/
theorem Call.run_of_not_fits (hfits : ¬ call.Fits heap.used) :
    (call.run heap).1 = some heap.used ∧ heapSize.toNat < call.requested := by
  have hheap : heapSize.toNat = 2097152 := rfl
  have hbounded := h.bounded
  have haligned := h.aligned
  have hmod := Nat.mod_le call.requested (2 ^ 64)
  have hnot : ¬ heap.used + roundUp call.total > heapSize := by
    rw [gt_iff_lt, UInt64.lt_iff_toNat_lt, UInt64.toNat_add, roundUp_toNat,
      call.total_toNat]
    unfold Fits at hfits
    omega
  refine ⟨(run_granted hnot).1, ?_⟩
  unfold Fits at hfits
  omega

end Step

/-! ## A run of calls -/

theorem Block.disjoint_of_le {a b : Block} (h : a.start + a.bytes ≤ b.start) :
    Disjoint a.addresses b.addresses := by
  rw [Set.disjoint_left]
  rintro k ⟨-, hk⟩ ⟨hk', -⟩
  omega

/-- The blocks lie in order between the mark before and the end of the heap. -/
theorem blocks_of_fit {heap : Heap} {calls : List Call} (h : heap.Ok)
    (hfit : heap.EachFits calls) :
    (∀ block ∈ heap.blocks calls, heap.used.toNat ≤ block.start ∧
      block.start + block.bytes ≤ heapSize.toNat) ∧
    (heap.blocks calls).Pairwise fun a b => a.start + a.bytes ≤ b.start := by
  induction calls generalizing heap with
  | nil => simp [Heap.blocks]
  | cons call calls ih =>
      obtain ⟨hcall, hrest⟩ := hfit
      obtain ⟨hok, ⟨hnone, hused⟩ | ⟨hsome, hroom⟩⟩ := hcall.run h
      · have hlater := ih hok hrest
        rw [hused] at hlater
        simpa [Heap.blocks, Block.ofResult, hnone] using hlater
      · obtain ⟨hinside, hpairwise⟩ := ih hok hrest
        have hbounded := hok.bounded
        simp only [Heap.blocks, Block.ofResult, hsome, Option.toList_some,
          List.map_cons, List.map_nil, List.singleton_append,
          List.forall_mem_cons, List.pairwise_cons]
        refine ⟨⟨⟨le_rfl, by omega⟩, fun block hblock => ?_⟩,
          fun block hblock => ?_, hpairwise⟩
        · have := hinside block hblock
          omega
        · have := hinside block hblock
          omega

theorem usage_of_fit {heap : Heap} {calls : List Call} (h : heap.Ok)
    (hfit : heap.EachFits calls) :
    (∀ used ∈ heap.usage calls, heap.used ≤ used ∧ used ≤ heapSize) ∧
      (heap.usage calls).Pairwise (· ≤ ·) := by
  induction calls generalizing heap with
  | nil => simpa [Heap.usage] using UInt64.le_iff_toNat_le.mpr h.bounded
  | cons call calls ih =>
      obtain ⟨hcall, hrest⟩ := hfit
      obtain ⟨hok, hmark⟩ := hcall.run h
      have hstep : heap.used ≤ (call.run heap).2.used := by
        rw [UInt64.le_iff_toNat_le]
        rcases hmark with ⟨-, hused⟩ | ⟨-, hroom⟩
        · rw [hused]
        · omega
      obtain ⟨hbetween, hrising⟩ := ih hok hrest
      have hlater : ∀ used ∈ (call.run heap).2.usage calls, heap.used ≤ used :=
        fun used hused => UInt64.le_trans hstep (hbetween used hused).1
      simp only [Heap.usage, List.forall_mem_cons, List.pairwise_cons]
      exact ⟨⟨⟨UInt64.le_refl _, UInt64.le_iff_toNat_le.mpr h.bounded⟩,
        fun used hused => ⟨hlater used hused, (hbetween used hused).2⟩⟩,
        hlater, hrising⟩

/-- Blocks inside the heap come from calls that fit. -/
theorem fit_of_inside {heap : Heap} {calls : List Call} (h : heap.Ok)
    (hinside : ∀ block ∈ heap.blocks calls,
      block.start + block.bytes ≤ heapSize.toNat) : heap.EachFits calls := by
  induction calls generalizing heap with
  | nil => trivial
  | cons call calls ih =>
      have hcall : call.Fits heap.used := by
        by_contra hfits
        obtain ⟨hsome, hlarge⟩ := call.run_of_not_fits h hfits
        have hblock : heap.used.toNat + call.requested ≤ heapSize.toNat :=
          hinside ⟨heap.used.toNat, call.requested⟩
            (List.mem_append_left _ (by simp [Block.ofResult, hsome]))
        omega
      exact ⟨hcall, ih (hcall.run h).1 fun block hblock =>
        hinside block (List.mem_append_right _ hblock)⟩

/--
After a reset, blocks lie in the heap and apart, and the mark stays in the
heap and rises, exactly when each call fits the bytes in use when it is made.
-/
theorem soundAllocation_iff (heap : Heap) (calls : List Call) :
    SoundAllocation heap.reset calls ↔ heap.reset.EachFits calls := by
  constructor
  · intro hsound
    exact fit_of_inside heap.reset_ok hsound.inside
  · intro hfit
    obtain ⟨hblocks, hordered⟩ := blocks_of_fit heap.reset_ok hfit
    obtain ⟨husage, hrising⟩ := usage_of_fit heap.reset_ok hfit
    exact {
      inside := fun block hblock => (hblocks block hblock).2
      disjoint := hordered.imp Block.disjoint_of_le
      bounded := fun used hused => (husage used hused).2
      rising := hrising }

/-- `malloc(SIZE_MAX)` takes nothing and returns the block of the next caller. -/
theorem two_owners_of_one_block :
    let heap : Heap := ⟨0, fun _ => 0, 0, []⟩
    let calls := [Call.malloc 18446744073709551615, Call.malloc 16]
    heap.blocks calls = [⟨0, 18446744073709551615⟩, ⟨0, 16⟩] ∧
      ¬ SoundAllocation heap calls := by
  have hblocks : (Heap.mk 0 (fun _ => 0) 0 []).blocks
      [Call.malloc 18446744073709551615, Call.malloc 16] =
        [⟨0, 18446744073709551615⟩, ⟨0, 16⟩] := rfl
  refine ⟨hblocks, fun hsound => ?_⟩
  have hinside := hsound.inside ⟨0, 18446744073709551615⟩ (by simp [hblocks])
  exact absurd hinside (by decide)

end EntropyOS.Exfat
